import Scythe.Lib.Delimited
import Scythe.Lib.LastWrite
import Scythe.Lib.Stages
import Scythe.Suggestions
import Scythe.TypeRendering

-- A partial manifest that is laid over the manifest of a backend.
namespace Scythe.Overlays
open Text TypeRendering Stages
open Suggestions (closestKey threshold Suggests)

structure TypeMappingsOverlay where
  scalars : Mapping
  containers : Mapping
  docblockContainers : Mapping

structure NamingOverlay where
  structCase : Option String
  fnCase : Option String
  enumVariantCase : Option String
  rowSuffix : Option String

structure ImportConfigOverlay where
  rules : Mapping

structure ManifestOverlay where
  types : Option TypeMappingsOverlay
  naming : Option NamingOverlay
  imports : Option ImportConfigOverlay

def unknownKeys (overlay : Mapping) (vocabulary : List String) : List String :=
  Delimited.sortBy id (overlay.keys.filter fun key => key ∉ vocabulary)

def unknownKeyMessage (table key : String) (near : Option String) : String :=
  let suggestion := match near with
    | some near => s!" (did you mean '{near}'?)"
    | none => ""
  s!"unknown [{table}] key '{key}'{suggestion}; this table may only override mappings the backend already defines"

-- The first in order of the keys that are not in the vocabulary is told.
def rejectUnknownKeys (overlay : Mapping) (vocabulary : List String) (table : String) : Option BackendError :=
  (unknownKeys overlay vocabulary).head?.map fun key =>
    .manifestError (unknownKeyMessage table key (closestKey key vocabulary))

def inserted (target overlay : Mapping) : Mapping := LastWrite.putAll target overlay.entries

def validCaseNames : List String := ["PascalCase","snake_case","camelCase","SCREAMING_SNAKE_CASE"]

def validateCaseName (field case : String) : Option BackendError :=
  if case ∈ validCaseNames then none
  else some (.manifestError (s!"[naming] {field} = \"" ++ case ++
    "\" is not a recognized case convention (expected one of: " ++ join ", " validCaseNames ++ ")"))

def scalarsStage (overlay : Mapping) : Stage BackendManifest BackendError where
  refuse manifest := rejectUnknownKeys overlay manifest.types.scalars.keys "types.scalars"
  change manifest := { manifest with types.scalars := inserted manifest.types.scalars overlay }

def containersStage (overlay : Mapping) : Stage BackendManifest BackendError where
  refuse manifest := rejectUnknownKeys overlay manifest.types.containers.keys "types.containers"
  change manifest := { manifest with types.containers := inserted manifest.types.containers overlay }

-- Every name of a container may be given for documentation comments.
def docblockStage (overlay : Mapping) : Stage BackendManifest BackendError where
  refuse manifest := rejectUnknownKeys overlay
    (manifest.types.containers.keys ++ manifest.types.docblockContainers.keys) "types.docblock_containers"
  change manifest := { manifest with types.docblockContainers := inserted manifest.types.docblockContainers overlay }

def structCaseStage (case : String) : Stage BackendManifest BackendError where
  refuse _ := validateCaseName "struct_case" case
  change manifest := { manifest with naming.structCase := case }

def fnCaseStage (case : String) : Stage BackendManifest BackendError where
  refuse _ := validateCaseName "fn_case" case
  change manifest := { manifest with naming.fnCase := case }

def enumVariantCaseStage (case : String) : Stage BackendManifest BackendError where
  refuse _ := validateCaseName "enum_variant_case" case
  change manifest := { manifest with naming.enumVariantCase := case }

def rowSuffixStage (suffix : String) : Stage BackendManifest BackendError where
  refuse _ := none
  change manifest := { manifest with naming.rowSuffix := suffix }

-- Rules for imports may be added.
def importsStage (overlay : ImportConfigOverlay) : Stage BackendManifest BackendError where
  refuse _ := none
  change manifest :=
    let rules := (manifest.imports.map (·.rules)).getD ∅
    { manifest with imports := some ⟨inserted rules overlay.rules⟩ }

def stages (overlay : ManifestOverlay) : List (Stage BackendManifest BackendError) :=
  [Stage.given (fun types : TypeMappingsOverlay => scalarsStage types.scalars) overlay.types,
    Stage.given (fun types : TypeMappingsOverlay => containersStage types.containers) overlay.types,
    Stage.given (fun types : TypeMappingsOverlay => docblockStage types.docblockContainers) overlay.types,
    Stage.given structCaseStage (overlay.naming.bind (·.structCase)),
    Stage.given fnCaseStage (overlay.naming.bind (·.fnCase)),
    Stage.given enumVariantCaseStage (overlay.naming.bind (·.enumVariantCase)),
    Stage.given rowSuffixStage (overlay.naming.bind (·.rowSuffix)),
    Stage.given importsStage overlay.imports]

-- The manifest as it is left, merged in part where there is an error.
def applyOverlay (manifest : BackendManifest) (overlay : ManifestOverlay) :
    BackendManifest × Except BackendError Unit :=
  run (stages overlay) manifest

section Tables

theorem unknown_none {overlay : Mapping} {vocabulary : List String} {table : String} :
    rejectUnknownKeys overlay vocabulary table = none ↔ ∀ key ∈ overlay,key ∈ vocabulary := by
  unfold rejectUnknownKeys unknownKeys
  rw [Option.map_eq_none_iff,List.head?_eq_none_iff,← List.length_eq_zero_iff,(Delimited.sortBy_perm id _).length_eq,
    List.length_eq_zero_iff,List.filter_eq_nil_iff]
  refine forall_congr' fun key => imp_congr_right fun _ => ?_
  simp

-- What is said of a table with a key that is not known.
structure UnknownKey (given : Mapping) (vocabulary : List String) (table : String) (e : BackendError) : Prop where
  told : ∃ key near,key ∈ given ∧ key ∉ vocabulary ∧ (∀ other ∈ given,other ∉ vocabulary → key ≤ other) ∧
    Suggests (threshold key) key vocabulary near ∧ e = .manifestError (unknownKeyMessage table key near)

theorem unknown_some {overlay : Mapping} {vocabulary : List String} {table : String} {e : BackendError}
    (refused : rejectUnknownKeys overlay vocabulary table = some e) : UnknownKey overlay vocabulary table e := by
  obtain ⟨key,first,rfl⟩ := Option.map_eq_some_iff.mp refused
  unfold unknownKeys at first
  obtain ⟨rest,is⟩ := List.head?_eq_some_iff.mp first
  have sorted := Delimited.sortBy_sorted id (overlay.keys.filter fun key => key ∉ vocabulary)
  have members := fun other =>
    (Delimited.sortBy_perm id (overlay.keys.filter fun key => key ∉ vocabulary)).mem_iff (a := other)
  rw [is] at sorted members
  have unknown := List.mem_filter.mp ((members key).mp List.mem_cons_self)
  refine ⟨key,_,AList.mem_keys.mpr unknown.1,of_decide_eq_true unknown.2,fun other given absent => ?_,
    Suggestions.near_misses.closest key vocabulary,rfl⟩
  have listed := (members other).mpr (List.mem_filter.mpr ⟨AList.mem_keys.mp given,decide_eq_true absent⟩)
  rcases List.mem_cons.mp listed with rfl | later
  · exact String.le_refl _
  · exact List.rel_of_pairwise_cons sorted later

theorem inserted_lookup (target overlay : Mapping) (name : String) :
    (inserted target overlay).lookup name = (overlay.lookup name).or (target.lookup name) :=
  LastWrite.lookup_putAll overlay.nodupKeys target name

theorem inserted_keys {target overlay : Mapping} (known : ∀ key ∈ overlay,key ∈ target.keys) :
    (inserted target overlay).keys = target.keys :=
  LastWrite.keys_putAll fun entry member =>
    AList.mem_keys.mpr (known entry.1 (AList.mem_keys.mpr (List.mem_map_of_mem member)))

theorem inserted_isSome (target overlay : Mapping) (name : String) :
    ((inserted target overlay).lookup name).isSome = ((overlay.lookup name).isSome || (target.lookup name).isSome) := by
  rw [inserted_lookup]
  cases overlay.lookup name <;> rfl

end Tables

namespace ManifestOverlay

variable (overlay : ManifestOverlay)

-- What an overlay gives for a table, if anything.
def scalars : Mapping := (overlay.types.map (·.scalars)).getD ∅
def containers : Mapping := (overlay.types.map (·.containers)).getD ∅
def docblockContainers : Mapping := (overlay.types.map (·.docblockContainers)).getD ∅
def rules : Mapping := (overlay.imports.map (·.rules)).getD ∅

def structCase : Option String := overlay.naming.bind (·.structCase)
def fnCase : Option String := overlay.naming.bind (·.fnCase)
def enumVariantCase : Option String := overlay.naming.bind (·.enumVariantCase)
def rowSuffix : Option String := overlay.naming.bind (·.rowSuffix)

-- The case conventions that are given, by their fields.
def cases : List (String × String) :=
  overlay.structCase.toList.map (Prod.mk "struct_case") ++ (overlay.fnCase.toList.map (Prod.mk "fn_case") ++
    overlay.enumVariantCase.toList.map (Prod.mk "enum_variant_case"))

def namingOver (naming : Identifiers.NamingConfig) : Identifiers.NamingConfig :=
  { naming with
    structCase := overlay.structCase.getD naming.structCase
    fnCase := overlay.fnCase.getD naming.fnCase
    enumVariantCase := overlay.enumVariantCase.getD naming.enumVariantCase
    rowSuffix := overlay.rowSuffix.getD naming.rowSuffix }

end ManifestOverlay

variable {manifest : BackendManifest} {overlay : ManifestOverlay}

theorem validateCaseName_none {field case : String} : validateCaseName field case = none ↔ case ∈ validCaseNames := by
  unfold validateCaseName
  split <;> simp_all

-- What the checks of the tables look at.
def vocabularies (manifest : BackendManifest) : List String × List String × List String :=
  (manifest.types.scalars.keys,manifest.types.containers.keys,manifest.types.docblockContainers.keys)

theorem scalars_leaves (given : Mapping) : Stages.Leaves vocabularies (scalarsStage given) :=
  fun _ accepted => Prod.ext (inserted_keys (unknown_none.mp accepted)) rfl

theorem containers_leaves (given : Mapping) : Stages.Leaves vocabularies (containersStage given) :=
  fun _ accepted => Prod.ext rfl (Prod.ext (inserted_keys (unknown_none.mp accepted)) rfl)

theorem vocabularies_eq {s t : BackendManifest} (same : vocabularies s = vocabularies t) :
    s.types.scalars.keys = t.types.scalars.keys ∧ s.types.containers.keys = t.types.containers.keys ∧
      s.types.docblockContainers.keys = t.types.docblockContainers.keys :=
  ⟨congrArg Prod.fst same,congrArg (fun words => words.2.1) same,congrArg (fun words => words.2.2) same⟩

theorem containers_depends (given : Mapping) : Stages.DependsOn vocabularies (containersStage given) := by
  intro s t same
  obtain ⟨_,containers,_⟩ := vocabularies_eq same
  change rejectUnknownKeys given s.types.containers.keys _ = rejectUnknownKeys given t.types.containers.keys _
  rw [containers]

theorem docblock_depends (given : Mapping) : Stages.DependsOn vocabularies (docblockStage given) := by
  intro s t same
  obtain ⟨_,containers,docblocks⟩ := vocabularies_eq same
  change rejectUnknownKeys given (s.types.containers.keys ++ s.types.docblockContainers.keys) _ =
    rejectUnknownKeys given (t.types.containers.keys ++ t.types.docblockContainers.keys) _
  rw [containers,docblocks]

-- The stages for names and imports look at nothing of the manifest.
def namingStages (overlay : ManifestOverlay) : List (Stage BackendManifest BackendError) :=
  [Stage.given structCaseStage overlay.structCase,Stage.given fnCaseStage overlay.fnCase,
    Stage.given enumVariantCaseStage overlay.enumVariantCase,Stage.given rowSuffixStage overlay.rowSuffix,
    Stage.given importsStage overlay.imports]

theorem naming_alone (overlay : ManifestOverlay) :
    ∀ stage ∈ namingStages overlay,Stages.DependsOn (fun _ => ()) stage := by
  intro stage member
  simp only [namingStages,List.mem_cons,List.not_mem_nil,or_false] at member
  rcases member with rfl | rfl | rfl | rfl | rfl
  all_goals exact given_depends (fun _ _ _ _ => rfl) _

theorem naming_steady (overlay : ManifestOverlay) : Steady (namingStages overlay) := by
  unfold Steady
  refine List.Pairwise.imp_of_mem ?_ (List.pairwise_of_forall fun _ _ => trivial)
  intro stage later _ member _ s _
  exact naming_alone overlay later member _ _ rfl

-- No stage has a bearing on the checks of those after it.
theorem stages_steady (overlay : ManifestOverlay) : Steady (stages overlay) := by
  have naming : ∀ stage ∈ namingStages overlay,Stages.DependsOn vocabularies stage :=
    fun stage member s t _ => naming_alone overlay stage member s t rfl
  have docblocks : Stages.DependsOn vocabularies
      (Stage.given (fun types : TypeMappingsOverlay => docblockStage types.docblockContainers) overlay.types) :=
    given_depends (fun types : TypeMappingsOverlay => docblock_depends types.docblockContainers) _
  have containers : Stages.DependsOn vocabularies
      (Stage.given (fun types : TypeMappingsOverlay => containersStage types.containers) overlay.types) :=
    given_depends (fun types : TypeMappingsOverlay => containers_depends types.containers) _
  have last : Steady (Stage.given (fun types : TypeMappingsOverlay => docblockStage types.docblockContainers) overlay.types ::
      namingStages overlay) :=
    steady_cons (fun _ => ()) (fun _ _ => rfl) (naming_alone overlay) (naming_steady overlay)
  have second := steady_cons vocabularies
    (given_leaves (fun types : TypeMappingsOverlay => containers_leaves types.containers) overlay.types)
    (List.forall_mem_cons.mpr ⟨docblocks,naming⟩) last
  exact steady_cons vocabularies
    (given_leaves (fun types : TypeMappingsOverlay => scalars_leaves types.scalars) overlay.types)
    (List.forall_mem_cons.mpr ⟨containers,List.forall_mem_cons.mpr ⟨docblocks,naming⟩⟩) second

-- What has to be so for an overlay to be accepted.
structure Accepts (manifest : BackendManifest) (overlay : ManifestOverlay) : Prop where
  scalars : ∀ name ∈ overlay.scalars,name ∈ manifest.types.scalars
  containers : ∀ name ∈ overlay.containers,name ∈ manifest.types.containers
  docblocks : ∀ name ∈ overlay.docblockContainers,
    name ∈ manifest.types.containers ∨ name ∈ manifest.types.docblockContainers
  structCase : ∀ case ∈ overlay.structCase,case ∈ validCaseNames
  fnCase : ∀ case ∈ overlay.fnCase,case ∈ validCaseNames
  enumVariantCase : ∀ case ∈ overlay.enumVariantCase,case ∈ validCaseNames

def rulesOf (manifest : BackendManifest) : Mapping := (manifest.imports.map (·.rules)).getD ∅

-- Under each name stands what the overlay gives for it, else what was there.
structure Overlaid (manifest : BackendManifest) (overlay : ManifestOverlay) (after : BackendManifest) : Prop where
  backend : after.backend = manifest.backend
  scalars : ∀ name,after.types.scalars.lookup name = (overlay.scalars.lookup name).or (manifest.types.scalars.lookup name)
  containers : ∀ name,after.types.containers.lookup name =
    (overlay.containers.lookup name).or (manifest.types.containers.lookup name)
  docblocks : ∀ name,after.types.docblockContainers.lookup name =
    (overlay.docblockContainers.lookup name).or (manifest.types.docblockContainers.lookup name)
  rules : ∀ name,(rulesOf after).lookup name = (overlay.rules.lookup name).or ((rulesOf manifest).lookup name)
  naming : after.naming = overlay.namingOver manifest.naming

theorem given_types {overlay : ManifestOverlay} {P : String → Prop} (table : TypeMappingsOverlay → Mapping) :
    (∀ types ∈ overlay.types,∀ name ∈ table types,P name) ↔ ∀ name ∈ (overlay.types.map table).getD ∅,P name := by
  cases overlay.types with
  | none => simp
  | some types => simp

theorem accepts_iff : refusal (stages overlay) manifest = none ↔ Accepts manifest overlay := by
  unfold refusal stages
  simp only [List.findSome?_eq_none_iff,List.forall_mem_cons,List.not_mem_nil,given_refuse]
  have scalars : (∀ types ∈ overlay.types,(scalarsStage types.scalars).refuse manifest = none) ↔
      ∀ name ∈ overlay.scalars,name ∈ manifest.types.scalars :=
    (forall₂_congr fun _ _ => unknown_none).trans (given_types (·.scalars))
  have containers : (∀ types ∈ overlay.types,(containersStage types.containers).refuse manifest = none) ↔
      ∀ name ∈ overlay.containers,name ∈ manifest.types.containers :=
    (forall₂_congr fun _ _ => unknown_none).trans (given_types (·.containers))
  have docblocks : (∀ types ∈ overlay.types,(docblockStage types.docblockContainers).refuse manifest = none) ↔
      ∀ name ∈ overlay.docblockContainers,name ∈ manifest.types.containers ∨ name ∈ manifest.types.docblockContainers :=
    (forall₂_congr fun _ _ => unknown_none.trans (forall₂_congr fun _ _ => List.mem_append)).trans
      (given_types (·.docblockContainers))
  have structs : (∀ case ∈ overlay.naming.bind (·.structCase),(structCaseStage case).refuse manifest = none) ↔
      ∀ case ∈ overlay.structCase,case ∈ validCaseNames := forall₂_congr fun _ _ => validateCaseName_none
  have fns : (∀ case ∈ overlay.naming.bind (·.fnCase),(fnCaseStage case).refuse manifest = none) ↔
      ∀ case ∈ overlay.fnCase,case ∈ validCaseNames := forall₂_congr fun _ _ => validateCaseName_none
  have variants : (∀ case ∈ overlay.naming.bind (·.enumVariantCase),(enumVariantCaseStage case).refuse manifest = none) ↔
      ∀ case ∈ overlay.enumVariantCase,case ∈ validCaseNames := forall₂_congr fun _ _ => validateCaseName_none
  rw [scalars,containers,docblocks,structs,fns,variants]
  constructor
  · rintro ⟨first,second,third,fourth,fifth,sixth,_⟩
    exact ⟨first,second,third,fourth,fifth,sixth⟩
  · rintro ⟨first,second,third,fourth,fifth,sixth⟩
    exact ⟨first,second,third,fourth,fifth,sixth,fun _ _ => rfl,fun _ _ => rfl,fun _ absent => absent.elim⟩

-- A stage for a table that is not given changes nothing.
theorem scalars_change (manifest : BackendManifest) :
    (Stage.given (fun types : TypeMappingsOverlay => scalarsStage types.scalars) overlay.types).change manifest =
      { manifest with types.scalars := inserted manifest.types.scalars overlay.scalars } := by
  unfold ManifestOverlay.scalars
  cases overlay.types <;> rfl

theorem containers_change (manifest : BackendManifest) :
    (Stage.given (fun types : TypeMappingsOverlay => containersStage types.containers) overlay.types).change manifest =
      { manifest with types.containers := inserted manifest.types.containers overlay.containers } := by
  unfold ManifestOverlay.containers
  cases overlay.types <;> rfl

theorem docblock_change (manifest : BackendManifest) :
    (Stage.given (fun types : TypeMappingsOverlay => docblockStage types.docblockContainers) overlay.types).change manifest =
      { manifest with
        types.docblockContainers := inserted manifest.types.docblockContainers overlay.docblockContainers } := by
  unfold ManifestOverlay.docblockContainers
  cases overlay.types <;> rfl

theorem naming_change (manifest : BackendManifest) :
    (Stage.given rowSuffixStage overlay.rowSuffix).change
      ((Stage.given enumVariantCaseStage overlay.enumVariantCase).change
        ((Stage.given fnCaseStage overlay.fnCase).change ((Stage.given structCaseStage overlay.structCase).change manifest))) =
      { manifest with naming := overlay.namingOver manifest.naming } := by
  unfold ManifestOverlay.namingOver
  cases overlay.structCase <;> cases overlay.fnCase <;> cases overlay.enumVariantCase <;> cases overlay.rowSuffix <;> rfl

theorem imports_change (manifest : BackendManifest) :
    let after := (Stage.given importsStage overlay.imports).change manifest
    (∀ name,(rulesOf after).lookup name = (overlay.rules.lookup name).or ((rulesOf manifest).lookup name)) ∧
      after = { manifest with imports := after.imports } := by
  unfold ManifestOverlay.rules
  cases overlay.imports with
  | none => exact ⟨fun _ => rfl,rfl⟩
  | some imports => exact ⟨fun name => inserted_lookup (rulesOf manifest) imports.rules name,rfl⟩

theorem changed_overlaid (manifest : BackendManifest) (overlay : ManifestOverlay) :
    Overlaid manifest overlay (changed (stages overlay) manifest) := by
  have before : changed (stages overlay) manifest = (Stage.given importsStage overlay.imports).change
      ((Stage.given rowSuffixStage overlay.rowSuffix).change
        ((Stage.given enumVariantCaseStage overlay.enumVariantCase).change
          ((Stage.given fnCaseStage overlay.fnCase).change ((Stage.given structCaseStage overlay.structCase).change
            ((Stage.given (fun types : TypeMappingsOverlay => docblockStage types.docblockContainers) overlay.types).change
              ((Stage.given (fun types : TypeMappingsOverlay => containersStage types.containers) overlay.types).change
                ((Stage.given (fun types : TypeMappingsOverlay => scalarsStage types.scalars) overlay.types).change
                  manifest))))))) := rfl
  rw [before,scalars_change,containers_change,docblock_change,naming_change]
  obtain ⟨rules,rest⟩ := @imports_change overlay _
  constructor
  · rw [rest]
  · rw [rest]
    intro name
    exact inserted_lookup _ _ name
  · rw [rest]
    intro name
    exact inserted_lookup _ _ name
  · rw [rest]
    intro name
    exact inserted_lookup _ _ name
  · exact rules
  · rw [rest]

-- What an overlay is refused for: the first table with a key that is not known, or else
-- the first case convention that is none.
inductive Refused (manifest : BackendManifest) (overlay : ManifestOverlay) (e : BackendError) : Prop where
  | scalars (unknown : UnknownKey overlay.scalars manifest.types.scalars.keys "types.scalars" e)
  | containers (before : ∀ name ∈ overlay.scalars,name ∈ manifest.types.scalars)
      (unknown : UnknownKey overlay.containers manifest.types.containers.keys "types.containers" e)
  | docblocks (before : ∀ name ∈ overlay.scalars,name ∈ manifest.types.scalars)
      (between : ∀ name ∈ overlay.containers,name ∈ manifest.types.containers)
      (unknown : UnknownKey overlay.docblockContainers
        (manifest.types.containers.keys ++ manifest.types.docblockContainers.keys) "types.docblock_containers" e)
  | naming (known : Accepts manifest { overlay with naming := none }) (field case : String)
      (first : overlay.cases.find? (fun given => given.2 ∉ validCaseNames) = some (field,case))
      (told : validateCaseName field case = some e)

theorem types_refuse {stage : Mapping → Stage BackendManifest BackendError} {table : TypeMappingsOverlay → Mapping}
    {e : BackendError} (refused : (Stage.given (fun types => stage (table types)) overlay.types).refuse manifest = some e) :
    (stage ((overlay.types.map table).getD ∅)).refuse manifest = some e := by
  obtain ⟨types,is,refused⟩ := given_refuses refused
  rw [is]
  exact refused

theorem types_accept {stage : Mapping → Stage BackendManifest BackendError} {table : TypeMappingsOverlay → Mapping}
    {known : String → Prop} (exact' : ∀ given,(stage given).refuse manifest = none ↔ ∀ name ∈ given,known name)
    (accepted : (Stage.given (fun types => stage (table types)) overlay.types).refuse manifest = none) :
    ∀ name ∈ (overlay.types.map table).getD ∅,known name :=
  (given_types table).mp fun types is => (exact' _).mp (given_refuse.mp accepted types is)

-- The stages for the case conventions refuse the first that is none.
theorem cases_refuse (manifest : BackendManifest) (make : String → Stage BackendManifest BackendError) (field : String)
    (given : Option String) (rest : List (String × String)) {e : BackendError} {others : Option BackendError}
    (is : ∀ case,(make case).refuse manifest = validateCaseName field case)
    (later : others = some e → ∃ field case,rest.find? (fun given => given.2 ∉ validCaseNames) = some (field,case) ∧
      validateCaseName field case = some e)
    (refused : ((Stage.given make given).refuse manifest).or others = some e) :
    ∃ other case,(given.toList.map (Prod.mk field) ++ rest).find? (fun given => given.2 ∉ validCaseNames) =
      some (other,case) ∧ validateCaseName other case = some e := by
  cases given with
  | none => exact later refused
  | some case =>
    rw [show (Stage.given make (some case)).refuse manifest = validateCaseName field case from is case] at refused
    by_cases valid : case ∈ validCaseNames
    · rw [validateCaseName_none.mpr valid] at refused
      obtain ⟨other,wrong,first,told⟩ := later refused
      refine ⟨other,wrong,?_,told⟩
      simpa [valid] using first
    · cases told : validateCaseName field case with
      | none => exact absurd (validateCaseName_none.mp told) valid
      | some message =>
        rw [told] at refused
        cases refused
        exact ⟨field,case,by simp [valid],told⟩

theorem refused_first {e : BackendError} (refused : refusal (stages overlay) manifest = some e) :
    Refused manifest overlay e := by
  unfold stages at refused
  rw [refusal_cons,Option.or_eq_some_iff] at refused
  rcases refused with here | ⟨scalars,refused⟩
  · exact .scalars (unknown_some (types_refuse here))
  have scalars' : ∀ name ∈ overlay.scalars,name ∈ manifest.types.scalars := types_accept (fun _ => unknown_none) scalars
  rw [refusal_cons,Option.or_eq_some_iff] at refused
  rcases refused with here | ⟨containers,refused⟩
  · exact .containers scalars' (unknown_some (types_refuse here))
  have containers' : ∀ name ∈ overlay.containers,name ∈ manifest.types.containers :=
    types_accept (fun _ => unknown_none) containers
  rw [refusal_cons,Option.or_eq_some_iff] at refused
  rcases refused with here | ⟨docblocks,refused⟩
  · exact .docblocks scalars' containers' (unknown_some (types_refuse here))
  have docblocks' : ∀ name ∈ overlay.docblockContainers,
      name ∈ manifest.types.containers.keys ++ manifest.types.docblockContainers.keys :=
    types_accept (fun _ => unknown_none) docblocks
  have known : Accepts manifest { overlay with naming := none } :=
    ⟨scalars',containers',fun name given => List.mem_append.mp (docblocks' name given),nofun,nofun,nofun⟩
  have last : refusal [Stage.given rowSuffixStage overlay.rowSuffix,Stage.given importsStage overlay.imports] manifest =
      none := by
    rw [refusal_cons,refusal_cons,given_refuse.mpr fun _ _ => rfl,given_refuse.mpr fun _ _ => rfl]
    rfl
  rw [refusal_cons,refusal_cons,refusal_cons] at refused
  have variants := cases_refuse manifest enumVariantCaseStage "enum_variant_case" overlay.enumVariantCase [] (fun _ => rfl)
    (fun refused : _ = some e => nomatch last.symm.trans refused)
  have fns := cases_refuse manifest fnCaseStage "fn_case" overlay.fnCase _ (fun _ => rfl) variants
  obtain ⟨field,case,first,told⟩ :=
    cases_refuse manifest structCaseStage "struct_case" overlay.structCase _ (fun _ => rfl) fns refused
  exact .naming known field case (by rwa [List.append_nil] at first) told

theorem applyOverlay_accepts (manifest : BackendManifest) (overlay : ManifestOverlay) :
    (applyOverlay manifest overlay).2 = .ok () ↔ Accepts manifest overlay := by
  rw [← accepts_iff,applyOverlay,(run_steady (stages_steady overlay) manifest).1]
  cases refusal (stages overlay) manifest <;> simp

theorem applyOverlay_overlaid {manifest : BackendManifest} {overlay : ManifestOverlay} (accepts : Accepts manifest overlay) :
    Overlaid manifest overlay (applyOverlay manifest overlay).1 := by
  rw [applyOverlay,(run_steady (stages_steady overlay) manifest).2 (accepts_iff.mpr accepts)]
  exact changed_overlaid manifest overlay

theorem applyOverlay_refused {e : BackendError} (refused : (applyOverlay manifest overlay).2 = .error e) :
    Refused manifest overlay e := by
  rw [applyOverlay,(run_steady (stages_steady overlay) manifest).1] at refused
  cases is : refusal (stages overlay) manifest with
  | none =>
    rw [is] at refused
    cases refused
  | some other =>
    rw [is] at refused
    cases refused
    exact refused_first is

-- What laying an overlay over a manifest comes to.
structure OverlayOutcome (manifest : BackendManifest) (overlay : ManifestOverlay) : Prop where
  accepted : (applyOverlay manifest overlay).2 = .ok () ↔ Accepts manifest overlay
  overlaid : Accepts manifest overlay → Overlaid manifest overlay (applyOverlay manifest overlay).1
  refused : ∀ e,(applyOverlay manifest overlay).2 = .error e → Refused manifest overlay e

theorem overlay_outcome (manifest : BackendManifest) (overlay : ManifestOverlay) : OverlayOutcome manifest overlay :=
  ⟨applyOverlay_accepts manifest overlay,applyOverlay_overlaid,fun _ => applyOverlay_refused⟩

-- What no overlay changes, whether it is accepted or not.
structure Kept (manifest after : BackendManifest) : Prop where
  backend : after.backend = manifest.backend
  scalars : ∀ name,name ∈ after.types.scalars ↔ name ∈ manifest.types.scalars
  containers : ∀ name,name ∈ after.types.containers ↔ name ∈ manifest.types.containers
  docblocks : ∀ name,name ∈ after.types.docblockContainers ∨ name ∈ after.types.containers ↔
    name ∈ manifest.types.docblockContainers ∨ name ∈ manifest.types.containers
  rules : ∀ name ∈ rulesOf manifest,name ∈ rulesOf after
  structCase : after.naming.structCase = manifest.naming.structCase ∨ after.naming.structCase ∈ validCaseNames
  fnCase : after.naming.fnCase = manifest.naming.fnCase ∨ after.naming.fnCase ∈ validCaseNames
  enumVariantCase : after.naming.enumVariantCase = manifest.naming.enumVariantCase ∨
    after.naming.enumVariantCase ∈ validCaseNames
  others : after.naming.fieldCase = manifest.naming.fieldCase ∧ after.naming.reserved = manifest.naming.reserved ∧
    after.naming.sanitizeFieldNames = manifest.naming.sanitizeFieldNames

theorem Kept.refl (manifest : BackendManifest) : Kept manifest manifest :=
  ⟨rfl,fun _ => .rfl,fun _ => .rfl,fun _ => .rfl,fun _ held => held,.inl rfl,.inl rfl,.inl rfl,rfl,rfl,rfl⟩

theorem case_trans {a b c : String} (first : b = a ∨ b ∈ validCaseNames) (second : c = b ∨ c ∈ validCaseNames) :
    c = a ∨ c ∈ validCaseNames := by
  rcases second with rfl | valid
  · exact first
  · exact .inr valid

theorem Kept.trans (a b c : BackendManifest) (first : Kept a b) (second : Kept b c) : Kept a c where
  backend := second.backend.trans first.backend
  scalars name := (second.scalars name).trans (first.scalars name)
  containers name := (second.containers name).trans (first.containers name)
  docblocks name := (second.docblocks name).trans (first.docblocks name)
  rules name held := second.rules name (first.rules name held)
  structCase := case_trans first.structCase second.structCase
  fnCase := case_trans first.fnCase second.fnCase
  enumVariantCase := case_trans first.enumVariantCase second.enumVariantCase
  others := ⟨second.others.1.trans first.others.1,second.others.2.1.trans first.others.2.1,
    second.others.2.2.trans first.others.2.2⟩

theorem mem_inserted {target overlay : Mapping} {name : String} :
    name ∈ inserted target overlay ↔ name ∈ overlay ∨ name ∈ target := by
  rw [← AList.lookup_isSome,inserted_isSome,Bool.or_eq_true,AList.lookup_isSome,AList.lookup_isSome]

theorem mem_inserted_known {target overlay : Mapping} (known : ∀ key ∈ overlay,key ∈ target) (name : String) :
    name ∈ inserted target overlay ↔ name ∈ target := by
  rw [mem_inserted]
  exact ⟨fun either => either.elim (known name) id,.inr⟩

def Keeps (stage : Stage BackendManifest BackendError) : Prop := ∀ s,stage.refuse s = none → Kept s (stage.change s)

theorem scalars_keeps (given : Mapping) : Keeps (scalarsStage given) := fun s accepted =>
  { Kept.refl s with scalars := mem_inserted_known (unknown_none.mp accepted) }

theorem containers_keeps (given : Mapping) : Keeps (containersStage given) := fun s accepted =>
  have same := mem_inserted_known (unknown_none.mp accepted)
  { Kept.refl s with containers := same,docblocks := fun name => or_congr_right (same name) }

theorem docblock_keeps (given : Mapping) : Keeps (docblockStage given) := by
  intro s accepted
  refine { Kept.refl s with docblocks := fun name => ?_ }
  have known := unknown_none.mp accepted name
  rw [List.mem_append,← AList.mem_keys,← AList.mem_keys] at known
  change name ∈ inserted s.types.docblockContainers given ∨ _ ↔ _
  rw [mem_inserted]
  constructor
  · rintro ((new | held) | held)
    · exact (known new).symm
    · exact .inl held
    · exact .inr held
  · rintro (held | held)
    · exact .inl (.inr held)
    · exact .inr held

theorem imports_keeps (given : ImportConfigOverlay) : Keeps (importsStage given) := fun s _ =>
  { Kept.refl s with rules := fun _ held => mem_inserted.mpr (.inr held) }

theorem naming_keeps (overlay : ManifestOverlay) : ∀ stage ∈ namingStages overlay,Keeps stage := by
  intro stage member
  simp only [namingStages,List.mem_cons,List.not_mem_nil,or_false] at member
  rcases member with rfl | rfl | rfl | rfl | rfl
  · cases overlay.structCase with
    | none => exact fun s _ => Kept.refl s
    | some case => exact fun s valid => { Kept.refl s with structCase := .inr (validateCaseName_none.mp valid) }
  · cases overlay.fnCase with
    | none => exact fun s _ => Kept.refl s
    | some case => exact fun s valid => { Kept.refl s with fnCase := .inr (validateCaseName_none.mp valid) }
  · cases overlay.enumVariantCase with
    | none => exact fun s _ => Kept.refl s
    | some case => exact fun s valid => { Kept.refl s with enumVariantCase := .inr (validateCaseName_none.mp valid) }
  · cases overlay.rowSuffix with
    | none => exact fun s _ => Kept.refl s
    | some suffix => exact fun s _ => { Kept.refl s with }
  · cases overlay.imports with
    | none => exact fun s _ => Kept.refl s
    | some given => exact imports_keeps given

theorem given_keeps {make : TypeMappingsOverlay → Stage BackendManifest BackendError} (each : ∀ types,Keeps (make types)) :
    ∀ given : Option TypeMappingsOverlay,Keeps (Stage.given make given)
  | some types => each types
  | none => fun s _ => Kept.refl s

theorem applyOverlay_kept (manifest : BackendManifest) (overlay : ManifestOverlay) :
    Kept manifest (applyOverlay manifest overlay).1 := by
  refine run_related Kept.refl Kept.trans ?_ manifest
  exact List.forall_mem_cons.mpr ⟨given_keeps (fun types => scalars_keeps types.scalars) _,
    List.forall_mem_cons.mpr ⟨given_keeps (fun types => containers_keeps types.containers) _,
      List.forall_mem_cons.mpr ⟨given_keeps (fun types => docblock_keeps types.docblockContainers) _,naming_keeps overlay⟩⟩⟩

-- One overlay after the other, whatever becomes of them.
def overlaidAll (manifest : BackendManifest) (overlays : List ManifestOverlay) : BackendManifest :=
  overlays.foldl (fun manifest overlay => (applyOverlay manifest overlay).1) manifest

theorem overlaidAll_kept (manifest : BackendManifest) (overlays : List ManifestOverlay) :
    Kept manifest (overlaidAll manifest overlays) := by
  induction overlays generalizing manifest with
  | nil => exact Kept.refl manifest
  | cons overlay overlays ih => exact Kept.trans _ _ _ (applyOverlay_kept manifest overlay) (ih _)

theorem Kept.words {manifest after : BackendManifest} (kept : Kept manifest after) :
    ∀ position,SameWords after manifest position position
  | .native => ⟨fun name => Bool.eq_iff_iff.mpr (by simpa only [containerPattern,AList.lookup_isSome] using kept.containers name),
      fun name => Bool.eq_iff_iff.mpr (by simpa only [AList.lookup_isSome] using kept.scalars name)⟩
  | .docblock => by
    refine ⟨fun name => Bool.eq_iff_iff.mpr ?_,
      fun name => Bool.eq_iff_iff.mpr (by simpa only [AList.lookup_isSome] using kept.scalars name)⟩
    have both : ∀ manifest : BackendManifest,(containerPattern name manifest .docblock).isSome ↔
        name ∈ manifest.types.docblockContainers ∨ name ∈ manifest.types.containers := by
      intro manifest
      rw [← AList.lookup_isSome,← AList.lookup_isSome,containerPattern]
      cases manifest.types.docblockContainers.lookup name <;> simp
    rw [both,both]
    exact kept.docblocks name

def CasesValid (manifest : BackendManifest) : Prop :=
  manifest.naming.structCase ∈ validCaseNames ∧ manifest.naming.fnCase ∈ validCaseNames ∧
    manifest.naming.enumVariantCase ∈ validCaseNames

-- A manifest under any overlays, accepted and refused ones.
structure Invariants [CaseMap] (manifest : BackendManifest) (overlays : List ManifestOverlay) : Prop where
  kept : Kept manifest (overlaidAll manifest overlays)
  cases : CasesValid manifest → CasesValid (overlaidAll manifest overlays)
  refusals : ∀ position text nullable e,resolveTypeAt text (overlaidAll manifest overlays) nullable position = .error e ↔
    resolveTypeAt text manifest nullable position = .error e

theorem overlays_invariants [CaseMap] (manifest : BackendManifest) (overlays : List ManifestOverlay) :
    Invariants manifest overlays := by
  have kept := overlaidAll_kept manifest overlays
  refine ⟨kept,?_,fun position => (kept.words position).refusals⟩
  rintro ⟨structs,fns,variants⟩
  refine ⟨?_,?_,?_⟩
  · exact kept.structCase.elim (fun same => same ▸ structs) id
  · exact kept.fnCase.elim (fun same => same ▸ fns) id
  · exact kept.enumVariantCase.elim (fun same => same ▸ variants) id

-- Overlays that are to be accepted, one after the other.
def applyAll (manifest : BackendManifest) (overlays : List ManifestOverlay) : Except BackendError BackendManifest :=
  overlays.foldlM (fun manifest overlay =>
    match applyOverlay manifest overlay with
    | (after,.ok ()) => .ok after
    | (_,.error e) => .error e) manifest

theorem Kept.accepts {manifest after : BackendManifest} (kept : Kept manifest after) :
    Accepts after overlay ↔ Accepts manifest overlay := by
  have docblocks : (∀ name ∈ overlay.docblockContainers,
      name ∈ after.types.containers ∨ name ∈ after.types.docblockContainers) ↔
        ∀ name ∈ overlay.docblockContainers,name ∈ manifest.types.containers ∨ name ∈ manifest.types.docblockContainers :=
    forall₂_congr fun name _ => or_comm.trans ((kept.docblocks name).trans or_comm)
  constructor
  · rintro ⟨scalars,containers,docs,structs,fns,variants⟩
    exact ⟨fun name given => (kept.scalars name).mp (scalars name given),
      fun name given => (kept.containers name).mp (containers name given),docblocks.mp docs,structs,fns,variants⟩
  · rintro ⟨scalars,containers,docs,structs,fns,variants⟩
    exact ⟨fun name given => (kept.scalars name).mpr (scalars name given),
      fun name given => (kept.containers name).mpr (containers name given),docblocks.mpr docs,structs,fns,variants⟩

theorem applyAll_cons (manifest : BackendManifest) (overlay : ManifestOverlay) (overlays : List ManifestOverlay) :
    applyAll manifest (overlay :: overlays) =
      match (applyOverlay manifest overlay).2 with
      | .ok () => applyAll (applyOverlay manifest overlay).1 overlays
      | .error e => .error e := by
  unfold applyAll
  rw [List.foldlM_cons]
  rcases applyOverlay manifest overlay with ⟨after,outcome⟩
  cases outcome <;> rfl

theorem applyAll_accepts {manifest : BackendManifest} {overlays : List ManifestOverlay} :
    (∃ after,applyAll manifest overlays = .ok after) ↔ ∀ overlay ∈ overlays,Accepts manifest overlay := by
  induction overlays generalizing manifest with
  | nil => exact ⟨fun _ => nofun,fun _ => ⟨manifest,rfl⟩⟩
  | cons overlay overlays ih =>
    have later : (∀ other ∈ overlays,Accepts (applyOverlay manifest overlay).1 other) ↔
        ∀ other ∈ overlays,Accepts manifest other :=
      forall₂_congr fun _ _ => (applyOverlay_kept manifest overlay).accepts
    rw [applyAll_cons,List.forall_mem_cons,← applyOverlay_accepts,← later]
    cases (applyOverlay manifest overlay).2 with
    | ok _ => simpa using ih
    | error e => simp

-- What the last overlay that gives something has given.
theorem last_given {α : Type} {get : BackendManifest → Option α} {given : ManifestOverlay → Option α}
    (each : ∀ manifest overlay after,Overlaid manifest overlay after → get after = (given overlay).or (get manifest))
    {manifest after : BackendManifest} {overlays : List ManifestOverlay} (done : applyAll manifest overlays = .ok after) :
    get after = (overlays.reverse.findSome? given).or (get manifest) := by
  induction overlays generalizing manifest with
  | nil =>
    cases done
    rfl
  | cons overlay overlays ih =>
    rw [applyAll_cons] at done
    cases is : (applyOverlay manifest overlay).2 with
    | error e =>
      rw [is] at done
      cases done
    | ok _ =>
      rw [is] at done
      rw [ih done,each _ _ _ (applyOverlay_overlaid ((applyOverlay_accepts _ _).mp is)),List.reverse_cons,List.findSome?_append,
        Option.or_assoc,List.findSome?_singleton]

-- Overlays that are all accepted: each is by the first manifest, in any order, and
-- what the last of them gives stands.
structure LastGiven (manifest : BackendManifest) (overlays : List ManifestOverlay) : Prop where
  accepted : (∃ after,applyAll manifest overlays = .ok after) ↔ ∀ overlay ∈ overlays,Accepts manifest overlay
  scalars : ∀ after,applyAll manifest overlays = .ok after → ∀ name,after.types.scalars.lookup name =
    (overlays.reverse.findSome? fun overlay => overlay.scalars.lookup name).or (manifest.types.scalars.lookup name)
  containers : ∀ after,applyAll manifest overlays = .ok after → ∀ name,after.types.containers.lookup name =
    (overlays.reverse.findSome? fun overlay => overlay.containers.lookup name).or (manifest.types.containers.lookup name)
  docblocks : ∀ after,applyAll manifest overlays = .ok after → ∀ name,after.types.docblockContainers.lookup name =
    (overlays.reverse.findSome? fun overlay => overlay.docblockContainers.lookup name).or
      (manifest.types.docblockContainers.lookup name)
  rules : ∀ after,applyAll manifest overlays = .ok after → ∀ name,(rulesOf after).lookup name =
    (overlays.reverse.findSome? fun overlay => overlay.rules.lookup name).or ((rulesOf manifest).lookup name)
  rowSuffix : ∀ after,applyAll manifest overlays = .ok after →
    after.naming.rowSuffix = (overlays.reverse.findSome? (·.rowSuffix)).getD manifest.naming.rowSuffix
  structCase : ∀ after,applyAll manifest overlays = .ok after →
    after.naming.structCase = (overlays.reverse.findSome? (·.structCase)).getD manifest.naming.structCase
  fnCase : ∀ after,applyAll manifest overlays = .ok after →
    after.naming.fnCase = (overlays.reverse.findSome? (·.fnCase)).getD manifest.naming.fnCase
  enumVariantCase : ∀ after,applyAll manifest overlays = .ok after →
    after.naming.enumVariantCase =
      (overlays.reverse.findSome? (·.enumVariantCase)).getD manifest.naming.enumVariantCase

theorem last_named {get : Identifiers.NamingConfig → String} {given : ManifestOverlay → Option String}
    (each : ∀ naming overlay,get (ManifestOverlay.namingOver overlay naming) = (given overlay).getD (get naming))
    {manifest after : BackendManifest} {overlays : List ManifestOverlay} (done : applyAll manifest overlays = .ok after) :
    get after.naming = (overlays.reverse.findSome? given).getD (get manifest.naming) := by
  have single : ∀ manifest overlay after,Overlaid manifest overlay after →
      some (get after.naming) = (given overlay).or (some (get manifest.naming)) := by
    intro manifest overlay after overlaid
    rw [overlaid.naming,each]
    cases given overlay <;> rfl
  have last := last_given single done
  cases is : overlays.reverse.findSome? given with
  | none =>
    rw [is] at last
    exact Option.some.inj last
  | some named =>
    rw [is] at last
    exact Option.some.inj last

theorem overlays_last (manifest : BackendManifest) (overlays : List ManifestOverlay) : LastGiven manifest overlays where
  accepted := applyAll_accepts
  scalars _ done name := last_given (fun _ _ _ overlaid => overlaid.scalars name) done
  containers _ done name := last_given (fun _ _ _ overlaid => overlaid.containers name) done
  docblocks _ done name := last_given (fun _ _ _ overlaid => overlaid.docblocks name) done
  rules _ done name := last_given (fun _ _ _ overlaid => overlaid.rules name) done
  rowSuffix _ done := last_named (fun _ _ => rfl) done
  structCase _ done := last_named (fun _ _ => rfl) done
  fnCase _ done := last_named (fun _ _ => rfl) done
  enumVariantCase _ done := last_named (fun _ _ => rfl) done

end Scythe.Overlays
