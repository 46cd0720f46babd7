import Scythe.CatalogAgreement
import Scythe.TypeConversion

-- The neutral type of a column in two catalogs that know the same names.
namespace Scythe
open Text Register

section
variable [CaseMap]

omit [CaseMap] in
theorem agree_isSome {R : α → β → Prop} {a : AHashMap α} {b : AHashMap β} (agree : Agree R a b) (key : String) :
    (a.lookup key).isSome = (b.lookup key).isSome := by
  have related := agree_lookup agree key
  generalize a.lookup key = x at related
  generalize b.lookup key = y at related
  cases related with
  | none => rfl
  | some => rfl

theorem lookupQualified_agree {R : α → β → Prop} {a : AHashMap α} {b : AHashMap β} (agree : Agree R a b)
    (name : String) : (lookupQualified a name none).isSome = (lookupQualified b name none).isSome := by
  have whole := agree_isSome agree (CaseMap.lowercase name)
  unfold lookupQualified
  dsimp only
  cases left : a.lookup (CaseMap.lowercase name) with
  | some x =>
    rw [left] at whole
    cases right : b.lookup (CaseMap.lowercase name) with
    | some y => rfl
    | none =>
      rw [right] at whole
      cases whole
  | none =>
    rw [left] at whole
    cases right : b.lookup (CaseMap.lowercase name) with
    | some y =>
      rw [right] at whole
      cases whole
    | none =>
      dsimp only
      split
      next => rfl
      next =>
        rw [agree_keys agree]
        cases suffixKey b.keys ("." ++ CaseMap.lowercase name) with
        | none => rfl
        | some key => exact agree_isSome agree key

-- Two catalogs without a search path that know the same names of types.
structure SameNames (a b : Catalog) : Prop where
  dialect : a.dialect = b.dialect
  unsearched : a.searchPath = none
  searchPath : a.searchPath = b.searchPath
  enums : a.enums = b.enums
  composites : Agree (fun _ _ => True) a.composites b.composites
  domains : a.domains = b.domains

theorem neutralWithin_congr {a b : Catalog} (same : SameNames a b) (fuel : Nat) (text : String) :
    sqlTypeToNeutralWithin a fuel text = sqlTypeToNeutralWithin b fuel text := by
  have other : b.searchPath = none := same.searchPath.symm.trans same.unsearched
  refine neutralWithin_reads same.dialect ?_ ?_ ?_ fuel text
  · intro name
    rw [Catalog.getDomainBaseType,Catalog.getDomainBaseType,same.domains,same.searchPath]
  · intro name
    rw [Catalog.getEnum,Catalog.getEnum,same.enums,same.searchPath]
  · intro name
    rw [Catalog.getComposite,Catalog.getComposite,same.unsearched,other]
    exact lookupQualified_agree same.composites name

theorem sqlTypeToNeutral_congr {a b : Catalog} (same : SameNames a b) (text : String) :
    sqlTypeToNeutral text a = sqlTypeToNeutral text b := by
  rw [sqlTypeToNeutral,sqlTypeToNeutral,neutralWithin_congr same,typeDepth,typeDepth,same.domains]

-- A text that stands in the resolver's own table, with or without a precision.
structure Named (dialect : SqlDialect) (text neutral : String) : Prop where
  bit : bitTypeToNeutral (CaseMap.lowercase text) dialect = none
  number : numberTypeToNeutral (CaseMap.lowercase text) = none
  name : namedType dialect (stripPrecision (CaseMap.lowercase text)) = some neutral

theorem within_named {catalog : Catalog} {text neutral : String} (named : Named catalog.dialect text neutral)
    (fuel : Nat) : sqlTypeToNeutralWithin catalog (fuel + 1) text = neutral := by
  simp only [sqlTypeToNeutralWithin,named.bit,named.number,named.name]

-- A text that names a domain and nothing the resolver would find first.
structure NamesDomain (catalog : Catalog) (text baseType : String) : Prop where
  bit : bitTypeToNeutral (CaseMap.lowercase text) catalog.dialect = none
  number : numberTypeToNeutral (CaseMap.lowercase text) = none
  name : namedType catalog.dialect (stripPrecision (CaseMap.lowercase text)) = none
  element : stripSuffix (stripPrecision (CaseMap.lowercase text)) "[]" = none
  domain : catalog.getDomainBaseType (stripPrecision (CaseMap.lowercase text)) = some baseType

theorem within_domain {catalog : Catalog} {text baseType : String} (names : NamesDomain catalog text baseType)
    (fuel : Nat) :
    sqlTypeToNeutralWithin catalog (fuel + 1) text = sqlTypeToNeutralWithin catalog fuel baseType := by
  simp only [sqlTypeToNeutralWithin,names.bit,names.number,names.name,names.element,names.domain]

theorem lookupQualified_nonempty {map : AHashMap α} {name : String} {path : Option (List String)} {value : α}
    (found : lookupQualified map name path = some value) : map.entries ≠ [] := by
  intro none
  have empty : map = ∅ := AList.ext none
  subst empty
  unfold lookupQualified at found
  simp only [AList.lookup_empty] at found
  split at found
  next => cases found
  next =>
    split at found
    next schemas =>
      have nothing : (schemas.findSome? fun _ => (Option.none : Option α)) = Option.none := by simp
      rw [nothing] at found
      cases found
    next =>
      cases key : suffixKey (∅ : AHashMap α).keys ("." ++ CaseMap.lowercase name) <;>
        · rw [key] at found
          cases found

theorem typeDepth_domain {catalog : Catalog} {text baseType : String} (names : NamesDomain catalog text baseType) :
    ∃ fuel, typeDepth catalog text = fuel + 1 + 1 := by
  obtain ⟨domain,found,-⟩ := Option.map_eq_some_iff.mp names.domain
  have some := lookupQualified_nonempty found
  cases entries : catalog.domains.entries with
  | nil => exact absurd entries some
  | cons entry rest =>
    refine ⟨text.length + (entry.2.baseType.length + (rest.map fun entry => entry.2.baseType.length + 1).sum),?_⟩
    rw [typeDepth,entries,List.map_cons,List.sum_cons]
    omega

-- Two texts for one type: the same text, two spellings of one entry of the
-- table, or a domain beside a spelling of its base type.
inductive ResolvesAlike (catalog : Catalog) : String → String → Prop
  | same (text : String) : ResolvesAlike catalog text text
  | aliases {text other neutral : String} (left : Named catalog.dialect text neutral)
      (right : Named catalog.dialect other neutral) : ResolvesAlike catalog text other
  | domain {text baseType other neutral : String} (names : NamesDomain catalog text baseType)
      (base : Named catalog.dialect baseType neutral) (right : Named catalog.dialect other neutral) :
      ResolvesAlike catalog text other

theorem neutral_alike {catalog : Catalog} {text other : String} (alike : ResolvesAlike catalog text other) :
    sqlTypeToNeutral text catalog = sqlTypeToNeutral other catalog := by
  cases alike with
  | same => rfl
  | aliases left right =>
    rw [sqlTypeToNeutral,sqlTypeToNeutral,typeDepth,typeDepth,within_named left,within_named right]
  | domain names base right =>
    obtain ⟨fuel,depth⟩ := typeDepth_domain names
    rw [sqlTypeToNeutral,sqlTypeToNeutral,depth,within_domain names,within_named base,typeDepth,within_named right]

variable [Printer] [TypeParser]

-- A column as both catalogs keep it.
structure ColumnsMatch (dialect : SqlDialect) (built parsed : Catalog) (c p : Column) : Prop where
  name : c.name = p.name
  nullable : c.nullable = p.nullable
  primaryKey : c.primaryKey = p.primaryKey
  types : ∃ text dataType, parsedType dialect text = some dataType ∧ c.sqlType = reported text ∧
    p.sqlType = (normalizeDataType built.domains dialect dataType).1
  neutral : ResolvesAlike built c.sqlType p.sqlType → sqlTypeToNeutral c.sqlType built = sqlTypeToNeutral p.sqlType parsed

end
end Scythe

namespace Scythe
open Text Register

-- Five texts a database reports for types, and how the parser reads them.
section
local instance inspectedCase : CaseMap := ascii

def custom (name : String) : DataType := .custom [.identifier ⟨name,false⟩] []

local instance inspectedTypes : TypeParser where
  dataType _ text :=
    if text = "INTEGER" then some .integer else
    if text = "TEXT" then some .text else
    if text = "timestamp(3) with time zone" then some (.timestamp (some 3) .withTimeZone) else
    if text = "mood" ∨ text = "code" then some (custom text) else none

local instance inspectedPrinter : Printer where
  query _ := ""
  dataType _ := ""
  expr _ := ""

def plainName (name : String) : CatalogObjectName := ⟨none,name⟩

def unquoted (name : String) : ObjectName := [.identifier ⟨name,false⟩]

def inspected : CatalogBuilder where
  dialect := .postgreSQL
  engine := none
  searchPath := none
  relations := [⟨plainName "users",.table,
    [⟨"id","INTEGER",false,none,true,none,none⟩,⟨"feeling","mood",true,none,false,none,none⟩]⟩]
  enums := [⟨plainName "mood",["sad","happy"]⟩]
  composites := [⟨plainName "address",[⟨"street","TEXT",true⟩]⟩]
  domains := [⟨plainName "code","TEXT",true⟩]
  functions := [⟨plainName "next_code",[⟨some "previous","code",.in,false⟩],.scalar "code"⟩]

def usersTable : CreateTable where
  name := unquoted "users"
  columns := [⟨⟨"id",false⟩,.integer,[.primaryKey]⟩,⟨⟨"feeling",false⟩,custom "mood",[.null]⟩]
  constraints := []
  ifNotExists := false
  withoutRowid := false
  strict := false

def schemaText : SchemaText where
  domains := [⟨"code","TEXT",true⟩]
  statements := [
    .createTable usersTable,
    .createType (unquoted "mood") (.enum [⟨"sad",true⟩,⟨"happy",true⟩]),
    .createType (unquoted "address") (.composite [(⟨"street",false⟩,.text)]),
    .createFunction ⟨unquoted "next_code",[⟨none,some ⟨"previous",false⟩,custom "code",none⟩],
      some (.dataType (custom "code")),false,false,false⟩]

def builtOf (builder : CatalogBuilder) : InspectedCatalog :=
  builder.build.toOption.getD (Catalog.new builder.dialect).uninspected

def parsedOf (text : SchemaText) : Catalog :=
  (fromDdlWithDialect [text] .postgreSQL).toOption.getD (Catalog.new .postgreSQL)

theorem schemaText_spells : Spells inspected (builtOf inspected).domains schemaText where
  searchPath := rfl
  relations := by
    refine .cons ⟨rfl,rfl,?_⟩ .nil
    refine .cons ⟨⟨rfl,rfl⟩,rfl,rfl,rfl,?_,rfl,rfl⟩ (.cons ⟨⟨rfl,rfl⟩,rfl,rfl,rfl,?_,rfl,rfl⟩ .nil)
    · intro written
      cases written
    · intro _
      exact ⟨rfl,rfl⟩
  enums := .cons ⟨rfl,rfl⟩ .nil
  composites := .cons ⟨rfl,.cons ⟨rfl,rfl,rfl⟩ .nil⟩ .nil
  functions := .cons ⟨rfl,.cons ⟨rfl,rfl,rfl,rfl⟩ .nil,⟨rfl,rfl⟩⟩ .nil
  domains := .cons ⟨rfl,rfl,rfl⟩ .nil

theorem keepsType_of {domains : AHashMap DomainDef} {text : String} {dataType : DataType}
    (parse : parsedType .postgreSQL text = some dataType)
    (kept : (normalizeDataType domains .postgreSQL dataType).1 = reported text) :
    KeepsType .postgreSQL domains text := by
  intro other same
  rw [parse,Option.some.injEq] at same
  rwa [←same]

theorem inspected_normal : NormalForm inspected (builtOf inspected).domains where
  relations := by
    intro relation member
    simp only [inspected,List.mem_singleton] at member
    subst member
    refine ⟨⟨rfl,rfl⟩,?_⟩
    intro column member
    simp only [List.mem_cons,List.not_mem_nil,or_false] at member
    rcases member with rfl | rfl
    · exact keepsType_of rfl rfl
    · exact keepsType_of rfl rfl
  enums := by
    intro definition member
    simp only [inspected,List.mem_singleton] at member
    subst member
    exact ⟨rfl,rfl⟩
  composites := by
    intro definition member
    simp only [inspected,List.mem_singleton] at member
    subst member
    refine ⟨⟨rfl,rfl⟩,?_⟩
    intro field member
    simp only [List.mem_singleton] at member
    subst member
    exact keepsType_of rfl rfl
  functions := by
    intro definition member
    simp only [inspected,List.mem_singleton] at member
    subst member
    have code : KeepsSignatureType .postgreSQL (builtOf inspected).domains "code" := by
      intro dataType parse
      cases parse
      rfl
    refine ⟨?_,code⟩
    intro argument member
    simp only [List.mem_singleton] at member
    subst member
    exact code
  domains := by
    intro definition member
    simp only [inspected,List.mem_singleton] at member
    subst member
    exact ⟨rfl,rfl⟩

-- The very text that PostgreSQL reports for the type.
def timed : CatalogBuilder where
  dialect := .postgreSQL
  engine := none
  searchPath := none
  relations := [⟨plainName "events",.table,[⟨"at","timestamp(3) with time zone",true,none,false,none,none⟩]⟩]
  enums := []
  composites := []
  domains := []
  functions := []

def eventsTable : CreateTable where
  name := unquoted "events"
  columns := [⟨⟨"at",false⟩,.timestamp (some 3) .withTimeZone,[]⟩]
  constraints := []
  ifNotExists := false
  withoutRowid := false
  strict := false

def timedText : SchemaText := ⟨[],[.createTable eventsTable]⟩

theorem timed_spells : Spells timed (builtOf timed).domains timedText where
  searchPath := rfl
  relations := by
    refine .cons ⟨rfl,rfl,.cons ⟨⟨rfl,rfl⟩,rfl,rfl,rfl,?_,rfl,rfl⟩ .nil⟩ .nil
    intro _
    exact ⟨rfl,rfl⟩
  enums := .nil
  composites := .nil
  functions := .nil
  domains := .nil

def neutralColumns (catalog : Catalog) (table : String) : List String :=
  ((catalog.tables.lookup table).map (·.columns)).getD [] |>.map fun column => sqlTypeToNeutral column.sqlType catalog

end
end Scythe
