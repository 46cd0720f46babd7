import Scythe.BackendCode
import Scythe.EnumLiterals

-- The definitions of an enum in the generated code.
namespace Scythe.EnumDefinitions
open Text Identifiers

theorem firstCollision_none {items : List (String × String)} :
    AssembledFile.firstCollision items = none ↔ (items.map Prod.snd).Nodup := by
  induction items with
  | nil => exact ⟨fun _ => List.nodup_nil,fun _ => rfl⟩
  | cons item rest ih =>
    have fresh : rest.find? (fun other => other.2 = item.2) = none ↔ item.2 ∉ rest.map Prod.snd := by
      rw [List.find?_eq_none,List.mem_map,not_exists]
      exact forall_congr' fun other => not_and.symm.trans (not_congr (and_congr_right fun _ => decide_eq_true_iff))
    rw [AssembledFile.firstCollision,List.map_cons,List.nodup_cons,← fresh]
    cases rest.find? (fun other => other.2 = item.2) with
    | none => exact ih.trans (and_iff_right rfl).symm
    | some other => exact iff_of_false (Option.some_ne_none _) fun both => Option.some_ne_none _ both.1

theorem collisions_ok {items : List (String × String)} {enumName : String} :
    AssembledFile.checkEnumVariantCollisions items enumName = .ok () ↔ (items.map Prod.snd).Nodup := by
  rw [← firstCollision_none]
  unfold AssembledFile.checkEnumVariantCollisions AssembledFile.checkCollisions
  cases AssembledFile.firstCollision items with
  | none => exact ⟨fun _ => rfl,fun _ => rfl⟩
  | some found =>
    refine iff_of_false (fun is => ?_) (Option.some_ne_none found)
    cases is

variable [CaseMap] (naming : NamingConfig) (info : EnumInfo)

def typeNameText : List Char := (enumTypeName naming info.sqlName).toList
def variantText (value : String) : List Char := (enumVariantName naming value).toList
def quotedRaw (value : String) : List Char := '"' :: value.toList ++ ['"']
def quotedEscaped (value : String) : List Char := '"' :: escapeTsDoubleQuotedLiteral value.toList ++ ['"']

section Emitters

def goPgxEnumDef : List Char :=
  let typeName := typeNameText naming info
  "type ".toList ++ typeName ++ " string\n\nconst (\n".toList ++
    info.values.flatMap (fun value =>
      '\t' :: (typeName ++ variantText naming value) ++ ' ' :: typeName ++ " = ".toList ++ quotedRaw value ++ ['\n']) ++
    [')']

def docstring : List Char := "\"\"\"Database enum type ".toList ++ info.sqlName.toList ++ ".\"\"\"".toList

def pythonPsycopg3EnumDef : List Char :=
  "class ".toList ++ typeNameText naming info ++ "(str, Enum):\n    ".toList ++ docstring info ++ ['\n'] ++
    if info.values.isEmpty then "    pass\n".toList
    else '\n' :: info.values.flatMap fun value =>
      "    ".toList ++ variantText naming value ++ " = ".toList ++ quotedRaw value ++ ['\n']

def rubyPgEnumDef : List Char :=
  let allValues := ", ".toList.intercalate (info.values.map (variantText naming))
  "  module ".toList ++ typeNameText naming info ++ ['\n'] ++
    info.values.flatMap (fun value =>
      "    ".toList ++ variantText naming value ++ " = ".toList ++ quotedRaw value ++ ['\n']) ++
    ("    ALL = [".toList ++ allValues ++ "].freeze\n  end".toList)

def generateZodEnum (typeName : List Char) (values : List String) : List Char :=
  let variants := ", ".toList.intercalate (values.map quotedEscaped)
  "export const ".toList ++ typeName ++ "Schema = z.enum([".toList ++ variants ++ "]);\n\nexport type ".toList ++ typeName ++
    " = z.infer<typeof ".toList ++ typeName ++ "Schema>;\n\nexport const ".toList ++ typeName ++ " = \x7b\n".toList ++
    values.flatMap (fun value =>
      '\t' :: tsPropertyKey (variantText naming value) ++ ": ".toList ++ quotedEscaped value ++ ",\n".toList) ++
    "\x7d as const;".toList

def generateJsEnumDef (typeName : List Char) (variants : List (List Char × String)) : List Char :=
  "export const ".toList ++ typeName ++ "Values = /** @type \x7bconst\x7d */ (\x7b\n".toList ++
    variants.flatMap (fun variant => '\t' :: variant.1 ++ ": ".toList ++ quotedRaw variant.2 ++ ",\n".toList) ++
    ("\x7d);\n\n/** @typedef \x7btypeof ".toList ++ typeName ++ "Values[keyof typeof ".toList ++ typeName ++
      "Values]\x7d ".toList ++ typeName ++ " */".toList)

def enumDef : EnumTarget → List Char
  | .goPgx => goPgxEnumDef naming info
  | .pythonPsycopg3 => pythonPsycopg3EnumDef naming info
  | .rubyPg => rubyPgEnumDef naming info
  | .zod => generateZodEnum naming (typeNameText naming info) info.values
  | .javascript =>
    generateJsEnumDef (typeNameText naming info) (info.values.map fun value => (variantText naming value,value))

end Emitters

section Definitions

-- What stands for a label in a definition.
structure Member where
  name : List Char
  key : List Char
  literal : List Char

def memberName (value : String) : EnumTarget → List Char
  | .goPgx => typeNameText naming info ++ variantText naming value
  | _ => variantText naming value

def memberKey (name : List Char) : EnumTarget → List Char
  | .zod => tsPropertyKey name
  | _ => name

def memberOf (target : EnumTarget) (value : String) : Member :=
  let name := memberName naming info value target
  ⟨name,memberKey name target,labelLiteral value.toList target⟩

def members (target : EnumTarget) : List Member := info.values.map (memberOf naming info target)

def memberLine (typeName : List Char) (member : Member) : EnumTarget → List Char
  | .goPgx => '\t' :: member.key ++ ' ' :: typeName ++ " = ".toList ++ member.literal ++ ['\n']
  | .pythonPsycopg3 | .rubyPg => "    ".toList ++ member.key ++ " = ".toList ++ member.literal ++ ['\n']
  | .zod | .javascript => '\t' :: member.key ++ ": ".toList ++ member.literal ++ ",\n".toList

def opening (typeName : List Char) (listed : List Member) : EnumTarget → List Char
  | .goPgx => "type ".toList ++ typeName ++ " string\n\nconst (\n".toList
  | .pythonPsycopg3 =>
    "class ".toList ++ typeName ++ "(str, Enum):\n    ".toList ++ docstring info ++ ['\n'] ++
      if listed.isEmpty then "    pass\n".toList else ['\n']
  | .rubyPg => "  module ".toList ++ typeName ++ ['\n']
  | .zod =>
    "export const ".toList ++ typeName ++ "Schema = z.enum([".toList ++ ", ".toList.intercalate (listed.map (·.literal)) ++
      "]);\n\nexport type ".toList ++ typeName ++ " = z.infer<typeof ".toList ++ typeName ++
      "Schema>;\n\nexport const ".toList ++ typeName ++ " = \x7b\n".toList
  | .javascript => "export const ".toList ++ typeName ++ "Values = /** @type \x7bconst\x7d */ (\x7b\n".toList

def ending (typeName : List Char) (listed : List Member) : EnumTarget → List Char
  | .goPgx => [')']
  | .pythonPsycopg3 => []
  | .rubyPg => "    ALL = [".toList ++ ", ".toList.intercalate (listed.map (·.key)) ++ "].freeze\n  end".toList
  | .zod => "\x7d as const;".toList
  | .javascript =>
    "\x7d);\n\n/** @typedef \x7btypeof ".toList ++ typeName ++ "Values[keyof typeof ".toList ++ typeName ++ "Values]\x7d ".toList ++
      typeName ++ " */".toList

-- Each definition is one line for each label, between what opens and what ends it.
theorem enumDef_text (target : EnumTarget) :
    enumDef naming info target =
      let typeName := typeNameText naming info
      let listed := members naming info target
      opening info typeName listed target ++ listed.flatMap (fun member => memberLine typeName member target) ++
        ending typeName listed target := by
  dsimp only
  unfold members
  rw [List.flatMap_map]
  cases target with
  | goPgx => rfl
  | pythonPsycopg3 =>
    unfold enumDef pythonPsycopg3EnumDef opening ending
    rw [List.isEmpty_map,List.append_nil]
    cases info.values with
    | nil => exact (List.append_nil _).symm
    | cons value rest => exact (List.append_assoc _ ['\n'] _).symm
  | rubyPg =>
    unfold ending
    rw [List.map_map]
    rfl
  | zod =>
    unfold opening
    rw [List.map_map]
    rfl
  | javascript =>
    unfold enumDef generateJsEnumDef
    rw [List.flatMap_map]
    rfl

end Definitions

section RoundTrip

-- What the host accepts for the name of the type, for the key of a member and for a
-- documentation string, and what its escapes by number denote.
structure HostGrammar where
  declares : List Char → Prop
  accepts : List Char → Prop
  documents : List Char → Prop
  numbered : NumberedEscapes

def keyName (key : List Char) : EnumTarget → Option (List Char)
  | .zod => propertyName key
  | _ => some key

-- The names that a definition gives besides the members.
def ownNames : EnumTarget → List (List Char)
  | .rubyPg => ["ALL".toList]
  | _ => []

structure RoundTrips (grammar : HostGrammar) (target : EnumTarget) : Prop where
  declared : grammar.declares (typeNameText naming info)
  documented : target = .pythonPsycopg3 → grammar.documents (docstring info)
  accepted : ∀ member ∈ members naming info target,grammar.accepts member.key
  named : ∀ member ∈ members naming info target,keyName member.key target = some member.name
  distinct : ((members naming info target).map (·.name) ++ ownNames target).Nodup
  values : (members naming info target).map (fun member => decodeLabel grammar.numbered member.literal target) =
    info.values.map fun value => some value.toList

-- The names that the labels come to are names, and differ, as the check that every
-- enum goes through requires.
structure NamesAccepted (grammar : HostGrammar) (target : EnumTarget) : Prop where
  declared : grammar.declares (typeNameText naming info)
  documented : target = .pythonPsycopg3 → grammar.documents (docstring info)
  accepted : ∀ value ∈ info.values,grammar.accepts (memberKey (memberName naming info value target) target)
  unbroken : target = .zod → ∀ value ∈ info.values,∀ c ∈ variantText naming value,c ≠ '\r' ∧ c ≠ '\n'
  apart : AssembledFile.checkEnumVariantCollisions (info.values.map fun value => (value,enumVariantName naming value))
    info.sqlName = .ok ()
  own : target = .rubyPg → ∀ value ∈ info.values,enumVariantName naming value ≠ "ALL"

-- A member's name has the variant that its label comes to, and differs when that does.
theorem memberNames_eq (target : EnumTarget) : ∃ front,∀ value,
    memberName naming info value target = front ++ (enumVariantName naming value).toList := by
  cases target with
  | goPgx => exact ⟨typeNameText naming info,fun _ => rfl⟩
  | _ => exact ⟨[],fun _ => rfl⟩

theorem names_nodup (target : EnumTarget) : ((members naming info target).map (·.name)).Nodup ↔
    (info.values.map (enumVariantName naming)).Nodup := by
  obtain ⟨front,is⟩ := memberNames_eq naming info target
  have names : (members naming info target).map (·.name) =
      (info.values.map (enumVariantName naming)).map fun variant => front ++ variant.toList := by
    unfold members
    rw [List.map_map,List.map_map]
    exact List.map_congr_left fun value _ => is value
  rw [names]
  exact List.nodup_map_iff fun a b same => String.toList_inj.mp (List.append_cancel_left same)

theorem distinct_iff (target : EnumTarget) :
    ((members naming info target).map (·.name) ++ ownNames target).Nodup ↔
      (info.values.map (enumVariantName naming)).Nodup ∧
        (target = .rubyPg → ∀ value ∈ info.values,enumVariantName naming value ≠ "ALL") := by
  cases target with
  | rubyPg =>
    rw [List.nodup_append,names_nodup]
    refine and_congr_right fun _ => ?_
    have names : (members naming info .rubyPg).map (·.name) = info.values.map (variantText naming) := by
      unfold members
      rw [List.map_map]
      rfl
    rw [names]
    constructor
    · intro both _ value member is
      exact both.2 _ (List.mem_map.mpr ⟨value,member,rfl⟩) _ (List.mem_singleton.mpr rfl) (congrArg String.toList is)
    · intro apart
      refine ⟨List.nodup_singleton _,fun name listed own there same => ?_⟩
      obtain ⟨value,member,rfl⟩ := List.mem_map.mp listed
      cases List.mem_singleton.mp there
      exact apart rfl value member (String.toList_inj.mp same)
  | _ =>
    rw [ownNames,List.append_nil,names_nodup]
    · exact (and_iff_left fun is => EnumTarget.noConfusion is).symm
    · exact fun is => EnumTarget.noConfusion is

theorem named_iff (target : EnumTarget) :
    (∀ member ∈ members naming info target,keyName member.key target = some member.name) ↔
      (target = .zod → ∀ value ∈ info.values,∀ c ∈ variantText naming value,c ≠ '\r' ∧ c ≠ '\n') := by
  refine List.forall_mem_map.trans ?_
  cases target with
  | zod =>
    have key (value : String) : keyName (memberOf naming info .zod value).key .zod = some (memberOf naming info .zod value).name ↔
        ∀ c ∈ variantText naming value,c ≠ '\r' ∧ c ≠ '\n' :=
      (script_round_trip_iff .propertyKey _).trans (carries_quoted (fun is => ScriptLiteral.noConfusion is) _)
    exact ⟨fun all _ value member => (key value).mp (all value member),
      fun all value member => (key value).mpr (all rfl value member)⟩
  | _ => exact ⟨fun _ is => EnumTarget.noConfusion is,fun _ _ _ => rfl⟩

-- A definition gives every label back exactly when the labels come to names of their
-- own and stand in their literals as they are.
theorem enum_round_trips_iff (grammar : HostGrammar) (target : EnumTarget) :
    RoundTrips naming info grammar target ↔
      NamesAccepted naming info grammar target ∧ ∀ value ∈ info.values,Carries value.toList target := by
  have values : (members naming info target).map (fun member => decodeLabel grammar.numbered member.literal target) =
      info.values.map (fun value => some value.toList) ↔ ∀ value ∈ info.values,Carries value.toList target := by
    unfold members
    rw [List.map_map,List.map_inj_left]
    exact forall₂_congr fun value _ => label_literal_iff grammar.numbered target value.toList
  have variants : (info.values.map (enumVariantName naming)).Nodup ↔
      AssembledFile.checkEnumVariantCollisions (info.values.map fun value => (value,enumVariantName naming value))
        info.sqlName = .ok () := by
    rw [collisions_ok,List.map_map]
    rfl
  constructor
  · intro trips
    obtain ⟨apart,own⟩ := (distinct_iff naming info target).mp trips.distinct
    have accepted (value : String) (member : value ∈ info.values) :
        grammar.accepts (memberKey (memberName naming info value target) target) :=
      trips.accepted _ (List.mem_map.mpr ⟨value,member,rfl⟩)
    exact ⟨⟨trips.declared,trips.documented,accepted,(named_iff naming info target).mp trips.named,variants.mp apart,own⟩,
      values.mp trips.values⟩
  · rintro ⟨names,carried⟩
    exact ⟨names.declared,names.documented,List.forall_mem_map.mpr names.accepted,(named_iff naming info target).mpr names.unbroken,
      (distinct_iff naming info target).mpr ⟨variants.mpr names.apart,names.own⟩,values.mpr carried⟩

end RoundTrip

end Scythe.EnumDefinitions

namespace Scythe.EnumDefinitions
open Text Identifiers

local instance : CaseMap := ascii

section Quotes

def pascalNaming : NamingConfig := ⟨"PascalCase","PascalCase","PascalCase","Row","snake_case",[],false⟩

def sizes : EnumInfo := ⟨"pipe_size",["3\" pipe"]⟩

-- A host that takes any name, and no escape by number.
def anyNames : HostGrammar where
  declares _ := True
  accepts _ := True
  documents _ := True
  numbered := ⟨fun _ => none,fun _ value rest is => absurd is.symm (Option.some_ne_none (value,rest))⟩

theorem unbroken_all {text : List Char} (all : text.all fun c => decide (c ≠ '\r' ∧ c ≠ '\n')) :
    ∀ c ∈ text,c ≠ '\r' ∧ c ≠ '\n' := fun c member => of_decide_eq_true (List.all_eq_true.mp all c member)

-- The quote in the label ends the literal wherever it is not escaped.
theorem quote_breaks : RoundTrips pascalNaming sizes anyNames .zod ∧ ¬RoundTrips pascalNaming sizes anyNames .goPgx ∧
    ¬RoundTrips pascalNaming sizes anyNames .pythonPsycopg3 ∧ ¬RoundTrips pascalNaming sizes anyNames .rubyPg ∧
    ¬RoundTrips pascalNaming sizes anyNames .javascript := by
  have raw {target : EnumTarget} (carried : ¬Carries "3\" pipe".toList target) :
      ¬RoundTrips pascalNaming sizes anyNames target := fun trips =>
    carried (((enum_round_trips_iff pascalNaming sizes anyNames target).mp trips).2 _ List.mem_cons_self)
  have quote : '"' ∈ "3\" pipe".toList := by decide
  refine ⟨(enum_round_trips_iff pascalNaming sizes anyNames .zod).mpr ⟨?_,?_⟩,raw fun carried => ?_,raw fun carried => ?_,
    raw fun carried => ?_,raw fun carried => ?_⟩
  · refine ⟨trivial,fun _ => trivial,fun _ _ => trivial,fun _ => ?_,?_,fun is => EnumTarget.noConfusion is⟩
    · have variant : variantText pascalNaming "3\" pipe" = "V3Pipe".toList := by decide +kernel
      refine List.forall_mem_singleton.mpr ?_
      rw [variant]
      exact unbroken_all (by decide)
    · exact collisions_ok.mpr (List.nodup_singleton _)
  · refine List.forall_mem_singleton.mpr ?_
    exact unbroken_all (by decide : "3\" pipe".toList.all _ = true)
  · exact carried _ quote List.mem_cons_self
  · exact Bool.false_ne_true carried.2
  · exact Bool.false_ne_true (carried.2 '"' " pipe".toList ⟨['3'],rfl⟩)
  · exact carried _ quote List.mem_cons_self

end Quotes

end Scythe.EnumDefinitions
