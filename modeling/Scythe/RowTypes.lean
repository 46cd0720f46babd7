import Scythe.Lib.Alternatives
import Scythe.ScriptLiterals

-- The row types that the TypeScript generators declare for a query: a flat interface,
-- a union over the outer joins, and a Zod schema with the same union.
namespace Scythe.RowTypes
open Text Alternatives

-- A column as the generators get it. The manifests of TypeScript write a nullable type
-- as a union with `null`.
structure ResolvedColumn where
  fieldName : List Char
  langType : List Char
  fullType : List Char
  neutralType : List Char
  nullable : Bool
  joinGroup : Option String
  nullableBeforeJoin : Bool
  wrapped : fullType = if nullable then langType ++ " | null".toList else langType

def ResolvedColumn.isJoinDiscriminant (col : ResolvedColumn) : Bool := col.joinGroup.isSome && !col.nullableBeforeJoin

-- The resolution of columns rejects two that come to one field.
structure ResolvedColumns where
  columns : List ResolvedColumn
  distinct : (columns.map (·.fieldName)).Nodup

def pushGroup (columns : List ResolvedColumn) (groups : List String) (col : ResolvedColumn) : List String :=
  match col.joinGroup with
  | some group =>
    if !groups.contains group && columns.any (fun c => c.joinGroup = some group && c.isJoinDiscriminant) then
      groups ++ [group]
    else groups
  | none => groups

def discriminatedJoinGroups (columns : List ResolvedColumn) : List String := columns.foldl (pushGroup columns) []

section Interfaces

def fieldLine (name type : List Char) (ending : List Char) : List Char :=
  '\t' :: tsPropertyKey name ++ ": ".toList ++ type ++ ending ++ ['\n']

def rowComment (queryName : List Char) : List Char :=
  "/** Row type for ".toList ++ queryName ++ " queries. */\n".toList

variable (structName queryName : List Char)

def interfaceOpening : Option (List Char) → List Char
  | some base => "export interface ".toList ++ structName ++ " extends ".toList ++ base ++ " \x7b\n".toList
  | none => "export interface ".toList ++ structName ++ " \x7b\n".toList

def aliasOpening : Option (List Char) → List Char
  | some base => "export type ".toList ++ structName ++ " = ".toList ++ base ++ " & \x7b\n".toList
  | none => "export type ".toList ++ structName ++ " = \x7b\n".toList

def generateTsInterfaceRowStructWithBase (columns : List ResolvedColumn) (base : Option (List Char)) : List Char :=
  rowComment queryName ++ interfaceOpening structName base ++
    columns.flatMap (fun col => fieldLine col.fieldName col.fullType [';']) ++ ['\x7d']

-- The columns that have no alternative to stand in.
def outside (groups : List String) (columns : List ResolvedColumn) : List ResolvedColumn :=
  columns.filter fun c => c.joinGroup.all fun group => !groups.contains group

def members (group : String) (columns : List ResolvedColumn) : List ResolvedColumn :=
  columns.filter fun c => c.joinGroup = some group

def matchedType (col : ResolvedColumn) : List Char := if col.nullableBeforeJoin then col.fullType else col.langType

def alternative (fields : List (List Char × List Char)) : List Char :=
  "\t| \x7b ".toList ++ "; ".toList.intercalate (fields.map fun field => tsPropertyKey field.1 ++ ": ".toList ++ field.2) ++
    " \x7d\n".toList

def generateTsUnionRowStruct (columns : List ResolvedColumn) (base : Option (List Char)) : List Char :=
  let groups := discriminatedJoinGroups columns
  if groups.isEmpty then generateTsInterfaceRowStructWithBase structName queryName columns base
  else
    rowComment queryName ++ aliasOpening structName base ++
      (outside groups columns).flatMap (fun col => fieldLine col.fieldName col.fullType [';']) ++ ['\x7d'] ++
      groups.flatMap (fun group =>
        " & (\n".toList ++
          alternative ((members group columns).map fun col => (col.fieldName,matchedType col)) ++
          alternative ((members group columns).map fun col => (col.fieldName,"null".toList)) ++ [')']) ++
      [';']

end Interfaces

section Schemas

-- The Zod expressions that the generators write.
inductive Zod where
  | nullable (inner : Zod)
  | array (element : Zod)
  | boolean
  | number
  | bigint
  | string
  | uuid
  | date
  | unknown
  | instanceOf (constructor : List Char)
  | unknownRecord
  | custom (type : List Char)
  | declared (name : List Char)
  | null

def Zod.text : Zod → List Char
  | .nullable inner => inner.text ++ ".nullable()".toList
  | .array element => "z.array(".toList ++ element.text ++ [')']
  | .boolean => "z.boolean()".toList
  | .number => "z.number()".toList
  | .bigint => "z.bigint()".toList
  | .string => "z.string()".toList
  | .uuid => "z.string().uuid()".toList
  | .date => "z.date()".toList
  | .unknown => "z.unknown()".toList
  | .instanceOf constructor => "z.instanceof(".toList ++ constructor ++ [')']
  | .unknownRecord => "z.record(z.string(), z.unknown())".toList
  | .custom type => "z.custom<".toList ++ type ++ ">()".toList
  | .declared name => name ++ "Schema".toList
  | .null => "z.null()".toList

-- What `ts_type_to_zod` takes a type for.
inductive TypeForm where
  | nullable (base : List Char)
  | generic (element : List Char)
  | brackets (element : List Char)
  | plain

def typeForm (tsType : List Char) : TypeForm :=
  match " | null".toList.isSuffixOf? tsType with
  | some base => .nullable base
  | none =>
    match ("Array<".toList.isPrefixOf? tsType).bind (['>'].isSuffixOf? ·) with
    | some element => .generic element
    | none =>
      match "[]".toList.isSuffixOf? tsType with
      | some element => .brackets element
      | none => .plain

def TypeForm.Spells (tsType : List Char) : TypeForm → Prop
  | .nullable base => tsType = base ++ " | null".toList
  | .generic element => tsType = "Array<".toList ++ element ++ ['>']
  | .brackets element => tsType = element ++ "[]".toList
  | .plain => True

theorem typeForm_spells (tsType : List Char) : (typeForm tsType).Spells tsType := by
  unfold typeForm
  split
  · exact (List.isSuffixOf?_eq_some_iff_append_eq.mp ‹_›).symm
  · split
    · obtain ⟨rest,front,back⟩ := Option.bind_eq_some_iff.mp ‹_›
      have whole := List.isPrefixOf?_eq_some_iff_append_eq.mp front
      have inner := List.isSuffixOf?_eq_some_iff_append_eq.mp back
      exact whole.symm.trans (by rw [← inner,List.append_assoc])
    · split
      · exact (List.isSuffixOf?_eq_some_iff_append_eq.mp ‹_›).symm
      · trivial

theorem trimChars_length (cs : List Char) : (trimChars cs).length ≤ cs.length := by
  unfold trimChars
  rw [List.length_reverse]
  have back := (List.dropWhile_suffix (l := (cs.dropWhile isSpace).reverse) isSpace).length_le
  have front := (List.dropWhile_suffix (l := cs) isSpace).length_le
  rw [List.length_reverse] at back
  exact back.trans front

theorem nullable_shorter {tsType base : List Char} (form : typeForm (trimChars tsType) = .nullable base) :
    base.length < tsType.length := by
  have spells := typeForm_spells (trimChars tsType)
  rw [form] at spells
  have whole := congrArg List.length spells
  have trimmed := trimChars_length tsType
  rw [List.length_append] at whole
  have behind : 0 < " | null".toList.length := by decide
  omega

theorem generic_shorter {tsType element : List Char} (form : typeForm (trimChars tsType) = .generic element) :
    element.length < tsType.length := by
  have spells := typeForm_spells (trimChars tsType)
  rw [form] at spells
  have whole := congrArg List.length spells
  have trimmed := trimChars_length tsType
  rw [List.length_append,List.length_append] at whole
  have behind : ['>'].length = 1 := rfl
  omega

theorem brackets_shorter {tsType element : List Char} (form : typeForm (trimChars tsType) = .brackets element) :
    element.length < tsType.length := by
  have spells := typeForm_spells (trimChars tsType)
  rw [form] at spells
  have whole := congrArg List.length spells
  have trimmed := trimChars_length tsType
  rw [List.length_append] at whole
  have behind : 0 < "[]".toList.length := by decide
  omega

def tsTypeToZod (tsType : List Char) : Zod :=
  match _form : typeForm (trimChars tsType) with
  | .nullable base => .nullable (tsTypeToZod base)
  | .generic element => .array (tsTypeToZod element)
  | .brackets element => .array (tsTypeToZod element)
  | .plain =>
    let tsType := trimChars tsType
    if tsType = "boolean".toList then .boolean
    else if tsType = "number".toList then .number
    else if tsType = "bigint".toList then .bigint
    else if tsType = "string".toList then .string
    else if tsType = "Date".toList then .date
    else if tsType = "unknown".toList then .unknown
    else if tsType = "Buffer".toList ∨ tsType = "Uint8Array".toList then .instanceOf tsType
    else if tsType = "Record<string, unknown>".toList then .unknownRecord
    else .custom tsType
termination_by tsType.length
decreasing_by
  · exact nullable_shorter ‹_›
  · exact generic_shorter ‹_›
  · exact brackets_shorter ‹_›

def columnToZodWithNullable (col : ResolvedColumn) (nullable : Bool) : Zod :=
  let base :=
    if "enum::".toList.isPrefixOf col.neutralType then
      .declared (("enum::".toList.isPrefixOf? col.langType).getD col.langType)
    else if col.neutralType = "uuid".toList ∧ col.langType = "string".toList then .uuid
    else tsTypeToZod col.langType
  if nullable then .nullable base else base

def columnToZod (col : ResolvedColumn) : Zod := columnToZodWithNullable col col.nullable

variable (structName queryName : List Char)

def schemaOpening : List Char := "export const ".toList ++ structName ++ "Schema = z.object(\x7b\n".toList

def inferredType : List Char :=
  "\nexport type ".toList ++ structName ++ " = z.infer<typeof ".toList ++ structName ++ "Schema>;".toList

def generateZodRowStruct (columns : List ResolvedColumn) : List Char :=
  rowComment queryName ++ schemaOpening structName ++
    columns.flatMap (fun col => fieldLine col.fieldName (columnToZod col).text [',']) ++ "\x7d);\n".toList ++
    inferredType structName

def objectFields (fields : List (List Char × Zod)) : List Char :=
  ", ".toList.intercalate (fields.map fun field => tsPropertyKey field.1 ++ ": ".toList ++ field.2.text)

def schemaAlternatives (matched unmatched : List (List Char × Zod)) : List Char :=
  ".and(z.union([z.object(\x7b ".toList ++ objectFields matched ++ " \x7d), z.object(\x7b ".toList ++
    objectFields unmatched ++ " \x7d)]))".toList

def generateZodUnionRowStruct (columns : List ResolvedColumn) : List Char :=
  let groups := discriminatedJoinGroups columns
  if groups.isEmpty then generateZodRowStruct structName queryName columns
  else
    rowComment queryName ++ schemaOpening structName ++
      (outside groups columns).flatMap (fun col => fieldLine col.fieldName (columnToZod col).text [',']) ++
      "\x7d)".toList ++
      groups.flatMap (fun group =>
        schemaAlternatives
          ((members group columns).map fun col => (col.fieldName,columnToZodWithNullable col col.nullableBeforeJoin))
          ((members group columns).map fun col => (col.fieldName,.null))) ++
      ";\n".toList ++ inferredType structName

end Schemas

section Declarations

-- What is declared, under its notation.
def rowType {τ : Type} (columns : List ResolvedColumn) (whole matched : ResolvedColumn → τ) (unmatched : τ) :
    RecordType (List Char) τ :=
  let groups := discriminatedJoinGroups columns
  ⟨(outside groups columns).map fun c => (c.fieldName,whole c),
    groups.map fun group =>
      ⟨(members group columns).map fun c => (c.fieldName,matched c),(members group columns).map fun c => (c.fieldName,unmatched)⟩⟩

def flatRowType (columns : List ResolvedColumn) : RecordType (List Char) (List Char) :=
  ⟨columns.map fun c => (c.fieldName,c.fullType),[]⟩

def tsRowType (columns : List ResolvedColumn) : RecordType (List Char) (List Char) :=
  rowType columns (·.fullType) matchedType "null".toList

def zodRowType (columns : List ResolvedColumn) : RecordType (List Char) Zod :=
  rowType columns columnToZod (fun c => columnToZodWithNullable c c.nullableBeforeJoin) .null

variable (structName queryName : List Char)

def tsDeclaration (base : Option (List Char)) (type : RecordType (List Char) (List Char)) : List Char :=
  let body := type.base.flatMap (fun field => fieldLine field.1 field.2 [';']) ++ ['\x7d']
  if type.choices.isEmpty then rowComment queryName ++ interfaceOpening structName base ++ body
  else
    rowComment queryName ++ aliasOpening structName base ++ body ++
      type.choices.flatMap (fun choice =>
        " & (\n".toList ++ alternative choice.left ++ alternative choice.right ++ [')']) ++ [';']

def zodDeclaration (type : RecordType (List Char) Zod) : List Char :=
  rowComment queryName ++ schemaOpening structName ++
    type.base.flatMap (fun field => fieldLine field.1 field.2.text [',']) ++ "\x7d)".toList ++
    type.choices.flatMap (fun choice => schemaAlternatives choice.left choice.right) ++ ";\n".toList ++
    inferredType structName

theorem outside_none (columns : List ResolvedColumn) : outside [] columns = columns :=
  without_nil ResolvedColumn.joinGroup columns

theorem flat_declared (columns : List ResolvedColumn) (base : Option (List Char)) :
    generateTsInterfaceRowStructWithBase structName queryName columns base =
      tsDeclaration structName queryName base (flatRowType columns) := by
  simp [generateTsInterfaceRowStructWithBase,tsDeclaration,flatRowType,List.flatMap_map]

theorem union_declared (columns : List ResolvedColumn) (base : Option (List Char)) :
    generateTsUnionRowStruct structName queryName columns base =
      tsDeclaration structName queryName base (tsRowType columns) := by
  unfold generateTsUnionRowStruct tsDeclaration tsRowType rowType
  cases groups : discriminatedJoinGroups columns with
  | nil => simp [generateTsInterfaceRowStructWithBase,outside_none,List.flatMap_map]
  | cons group rest => simp [List.flatMap_map]

theorem schema_declared (columns : List ResolvedColumn) :
    generateZodUnionRowStruct structName queryName columns =
      zodDeclaration structName queryName (zodRowType columns) := by
  unfold generateZodUnionRowStruct zodDeclaration zodRowType rowType
  cases groups : discriminatedJoinGroups columns with
  | nil => simp [generateZodRowStruct,outside_none,List.flatMap_map]
  | cons group rest => simp [List.flatMap_map]

end Declarations
end Scythe.RowTypes
