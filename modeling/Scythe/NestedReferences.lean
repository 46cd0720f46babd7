import Scythe.Casing
import Scythe.Fixtures

-- The names of nested structs in the two case conversions: the analyzer writes a
-- reference with its own, and the backends declare the struct with theirs.
namespace Scythe.NestedReferences
open Text Letters Casing

section
variable [CaseMap]

-- What the tables say of the letters that are put into every name. A capital sigma is
-- the only letter whose small letter depends on where in a text it stands.
structure NameTables : Prop where
  tables : CaseTables
  plain : ∀ c,isDigit c = true ∨ c ∈ "row".toList → CaseMap.isUpper c = false ∧ CaseMap.lowerChar c = [c]
  textPlain : ∀ cs,(∀ c ∈ cs,CaseMap.isUpper c = true → CaseMap.lowerChar c = [c]) →
    lowerText cs = cs.flatMap CaseMap.lowerChar

def WordAgrees : List Char → Prop
  | [] => True
  | first :: rest => titled (CaseMap.lowerChar first) = CaseMap.upperChar first ∧
      lowerText (first :: rest) = (first :: rest).flatMap CaseMap.lowerChar

-- Letter by letter, the words of a name are what the name is as one text.
def WordsAgree (name : String) : Prop := ∀ word ∈ splitChars '_' name.toList,WordAgrees word

def candidate (base : String) (suffix : Nat) : String := if suffix = 0 then base else s!"{base}_{suffix}"
def structBase (queryName columnName : String) : String := s!"{toSnakeCase queryName}_row_{columnName}"

def nestedNames (catalog : Catalog) (queryName : String) (pending : List PendingNestedStruct)
    (columns : List AnalyzedColumn) : NestedNames :=
  if pending.isEmpty ∨ catalog.dialect ≠ .postgreSQL then ⟨[],[]⟩ else
  (resolveNestedColumns catalog (toSnakeCase queryName) pending columns ⟨[],[]⟩).2

-- The names that are written into types, and those that are declared.
def NestedNames.produced (names : NestedNames) : List String :=
  names.resolved.map (·.2) ++ names.structs.map (·.name)

def NamedAfter (queryName : String) (col : AnalyzedColumn) (name : String) : Prop :=
  ∃ suffix,name = candidate (structBase queryName col.name) suffix

theorem words_append (before after : List Char) :
    (∀ word ∈ splitChars '_' (before ++ '_' :: after),WordAgrees word) ↔
      (∀ word ∈ splitChars '_' before,WordAgrees word) ∧ ∀ word ∈ splitChars '_' after,WordAgrees word := by
  rw [splitChars_append]
  exact List.forall_mem_append

section
variable (laws : NameTables)
include laws

theorem settled_agrees {word : List Char} (settled : ∀ c ∈ word,CaseMap.isUpper c = true → CaseMap.lowerChar c = [c]) :
    WordAgrees word := by
  cases word with
  | nil => trivial
  | cons first rest =>
    refine ⟨?_,laws.textPlain _ settled⟩
    cases upper : CaseMap.isUpper first with
    | false => exact laws.tables.retitled first upper
    | true =>
      rw [settled first List.mem_cons_self upper]
      exact List.append_nil _

theorem plain_agrees {word : List Char} (plain : ∀ c ∈ word,isDigit c = true ∨ c ∈ "row".toList) : WordAgrees word :=
  settled_agrees laws fun c member _ => (laws.plain c (plain c member)).2

omit [CaseMap] laws in
theorem plain_unlined {word : List Char} (plain : ∀ c ∈ word,isDigit c = true ∨ c ∈ "row".toList) : '_' ∉ word := by
  intro line
  rcases plain '_' line with digit | row
  · exact absurd digit (by decide)
  · exact absurd row (by decide)

-- A capital that snake case leaves in a name has no small letter.
theorem snake_agrees (queryName : String) : WordsAgree (toSnakeCase queryName) := by
  intro word member
  rw [snake_split laws.tables] at member
  exact settled_agrees laws fun c letter upper => nameWords_settled laws.tables _ word member c letter upper

-- An alias is written in small letters, so every name that comes from one agrees.
theorem lowercase_agrees (name : String) : WordsAgree (CaseMap.lowercase name) := by
  intro word member
  refine settled_agrees laws fun c letter _ => ?_
  have inside := (splitChars_part member).2 c letter
  rw [←lowerText_string] at inside
  exact laws.tables.textLowered _ c inside

theorem part_agrees {word : List Char} (plain : ∀ c ∈ word,isDigit c = true ∨ c ∈ "row".toList) (before : List Char) :
    (∀ part ∈ splitChars '_' (before ++ '_' :: word),WordAgrees part) ↔ ∀ part ∈ splitChars '_' before,WordAgrees part := by
  rw [words_append,splitChars_single (plain_unlined plain)]
  refine and_iff_left ?_
  intro part member
  rw [List.mem_singleton.mp member]
  exact plain_agrees laws plain

theorem structBase_agrees (queryName columnName : String) :
    WordsAgree (structBase queryName columnName) ↔ WordsAgree columnName := by
  have text : (structBase queryName columnName).toList =
      ((toSnakeCase queryName).toList ++ '_' :: "row".toList) ++ '_' :: columnName.toList := by
    simp [structBase,toString]
  unfold WordsAgree
  rw [text,words_append,part_agrees laws (fun c member => .inr member)]
  exact and_iff_right (snake_agrees laws queryName)

theorem candidate_agrees (base : String) (suffix : Nat) : WordsAgree (candidate base suffix) ↔ WordsAgree base := by
  unfold candidate
  split
  · rfl
  · have text : s!"{base}_{suffix}".toList = base.toList ++ '_' :: (toString suffix).toList := by
      simp [toString]
    unfold WordsAgree
    rw [text,part_agrees laws]
    intro c member
    rw [Nat.toString_eq_repr,Nat.toList_repr] at member
    exact .inl (Nat.isDigit_of_mem_toDigits (by decide) (by decide) member)

omit laws in
theorem row_word (queryName columnName : String) (suffix : Nat) :
    "row".toList ∈ splitChars '_' (candidate (structBase queryName columnName) suffix).toList := by
  have single : splitChars '_' "row".toList = ["row".toList] := by decide
  have base : ∀ rest,"row".toList ∈ splitChars '_' ((toSnakeCase queryName).toList ++ '_' :: ("row".toList ++ '_' :: rest)) := by
    intro rest
    rw [splitChars_append,splitChars_append,single]
    exact List.mem_append_right _ (List.mem_append_left _ (List.mem_singleton_self _))
  unfold candidate structBase
  split
  · simpa [toString] using base columnName.toList
  · simpa [toString] using base (columnName.toList ++ '_' :: (toString suffix).toList)

omit laws in
theorem candidate_line (queryName columnName : String) (suffix : Nat) :
    '_' ∈ (candidate (structBase queryName columnName) suffix).toList := by
  unfold candidate structBase
  split
  · simp [toString]
  · simp [toString]

theorem copies_agree_iff (queryName columnName : String) (suffix : Nat) :
    let name := candidate (structBase queryName columnName) suffix
    toPascalCase name = Identifiers.toPascalCase name ↔ WordsAgree columnName := by
  have row := row_word queryName columnName suffix
  intro name
  have tables := laws.tables
  have present : '_' ∈ name.toList := candidate_line queryName columnName suffix
  have small : lowerText "row".toList = "row".toList :=
    tables.textFixed _ fun c member => (laws.plain c (.inr member)).2
  have words : inCapitals name.toList ≠ [] := by
    unfold inCapitals nameWords
    rw [if_pos present,lowerText_parts tables,List.flatMap_map]
    intro none
    have each := List.flatMap_eq_nil_iff.mp none _ row
    rw [small] at each
    exact tables.upperSome _ (List.append_eq_nil_iff.mp each).1
  rw [←structBase_agrees laws queryName columnName,←candidate_agrees laws _ suffix,←String.toList_inj,
    pascal_capitals tables words]
  constructor
  · intro same word member
    cases word with
    | nil => trivial
    | cons first rest => exact (titled_agrees tables same).parts present first rest member
  · intro agrees
    have steady := (snake_steady tables name).mpr ⟨fun absent => absurd present absent,fun absent => absurd present absent⟩
    refine copy_titled tables steady ⟨fun _ first rest member => agrees _ member,?_,?_,?_⟩
    · exact fun absent => absurd present absent
    · exact fun absent => absurd present absent
    · exact fun absent => absurd present absent

end

section
variable {catalog : Catalog} {pending : List PendingNestedStruct} {queryName : String}

variable (catalog) in
theorem assign_named (base : String) (fields : List NestedFieldInfo) (tries suffix : Nat)
    (structs : List NestedStructInfo) :
    (∃ k,(assignNestedStructName catalog base fields tries suffix structs).1 = candidate base k) ∧
      ∀ nested ∈ (assignNestedStructName catalog base fields tries suffix structs).2,
        nested ∈ structs ∨ ∃ k,nested.name = candidate base k := by
  induction tries generalizing suffix with
  | zero => exact ⟨⟨0,rfl⟩,fun nested member => .inl member⟩
  | succ tries ih =>
    unfold assignNestedStructName
    dsimp only
    rw [show (if suffix = 0 then base else s!"{base}_{suffix}") = candidate base suffix from rfl]
    split
    · split
      · exact ⟨⟨suffix,rfl⟩,fun nested member => .inl member⟩
      · exact ih (suffix + 1)
    · split
      · refine ⟨⟨suffix,rfl⟩,fun nested member => ?_⟩
        rcases List.mem_append.mp member with old | new
        · exact .inl old
        · rw [List.mem_singleton.mp new]
          exact .inr ⟨suffix,rfl⟩
      · exact ih (suffix + 1)

def AllNamed (queryName : String) (columns : List AnalyzedColumn) (names : NestedNames) : Prop :=
  ∀ name ∈ NestedNames.produced names,∃ col ∈ columns,NamedAfter queryName col name

theorem nestedName_named {columns : List AnalyzedColumn} {col : AnalyzedColumn} (member : col ∈ columns)
    (names : NestedNames) (id : Nat) (named : AllNamed queryName columns names) :
    AllNamed queryName columns (nestedName catalog pending (structBase queryName col.name) id names).2 := by
  unfold nestedName
  split
  · exact named
  · obtain ⟨first,others⟩ := assign_named catalog (structBase queryName col.name)
      ((pendingFields pending id).getD []) (nestedTries catalog names.structs) 0 names.structs
    intro name produced
    rcases List.mem_append.mp produced with resolved | declared
    · rcases List.mem_cons.mp resolved with rfl | old
      · exact ⟨col,member,first⟩
      · exact named name (List.mem_append_left _ old)
    · obtain ⟨nested,inside,rfl⟩ := List.mem_map.mp declared
      rcases others nested inside with old | new
      · exact named _ (List.mem_append_right _ (List.mem_map_of_mem old))
      · exact ⟨col,member,new⟩

variable (catalog pending) in
theorem resolveNestedType_named {columns : List AnalyzedColumn} {col : AnalyzedColumn} (member : col ∈ columns)
    (fuel : Nat) : ∀ (neutralType : String) (names : NestedNames),AllNamed queryName columns names →
      AllNamed queryName columns
        (resolveNestedType catalog pending (structBase queryName col.name) fuel neutralType names).2 := by
  induction fuel with
  | zero => exact fun _ _ named => named
  | succ fuel ih =>
    intro neutralType names named
    unfold resolveNestedType
    split
    · exact named
    · exact ih _ _ (nestedName_named member names _ named)

theorem resolveNestedColumns_named {columns : List AnalyzedColumn} (rest : List AnalyzedColumn)
    (within : ∀ col ∈ rest,col ∈ columns) : ∀ names : NestedNames,AllNamed queryName columns names →
      AllNamed queryName columns (resolveNestedColumns catalog (toSnakeCase queryName) pending rest names).2 := by
  induction rest with
  | nil => exact fun _ named => named
  | cons col rest ih =>
    intro names named
    have first := resolveNestedType_named catalog pending (within col List.mem_cons_self)
      col.neutralType.length col.neutralType names named
    exact ih (fun other member => within other (List.mem_cons_of_mem _ member)) _ first

theorem nestedNames_named (columns : List AnalyzedColumn) :
    AllNamed queryName columns (nestedNames catalog queryName pending columns) := by
  have none : AllNamed queryName columns ⟨[],[]⟩ := by
    intro name member
    cases member
  unfold nestedNames
  split
  · exact none
  · exact resolveNestedColumns_named columns (fun _ member => member) _ none

omit [CaseMap] in
theorem resolved_structs [CaseMap] (columns : List AnalyzedColumn) :
    (resolveNestedStructNames catalog queryName pending columns).2 =
      (nestedNames catalog queryName pending columns).structs := by
  unfold resolveNestedStructNames nestedNames
  split
  · rfl
  · rfl

theorem references_match_iff (laws : NameTables) (columns : List AnalyzedColumn) :
    (∀ name ∈ NestedNames.produced (nestedNames catalog queryName pending columns),
      toPascalCase name = Identifiers.toPascalCase name) ↔
        ∀ col ∈ columns,(∃ name ∈ NestedNames.produced (nestedNames catalog queryName pending columns),
          NamedAfter queryName col name) → WordsAgree col.name := by
  constructor
  · intro same col _ names
    obtain ⟨name,produced,suffix,rfl⟩ := names
    exact (copies_agree_iff laws queryName col.name suffix).mp (same _ produced)
  · intro agree name produced
    obtain ⟨col,member,suffix,is⟩ := nestedNames_named columns name produced
    have words := agree col member ⟨name,produced,suffix,is⟩
    rw [is]
    exact (copies_agree_iff laws queryName col.name suffix).mpr words

end

end

section Docs
local instance docsCase : CaseMap := ascii

theorem ascii_names : NameTables where
  tables := ascii_tables
  plain c given := by
    have small : asciiIsUpper c = false := by
      rcases given with digit | row
      · unfold isDigit at digit
        unfold asciiIsUpper
        simp only [Bool.and_eq_true,decide_eq_true_eq,Bool.and_eq_false_iff,decide_eq_false_iff_not] at digit ⊢
        have nine : '9'.toNat = 57 := rfl
        have capital : 'A'.toNat = 65 := rfl
        omega
      · have letters : "row".toList = ['r','o','w'] := rfl
        rw [letters] at row
        simp only [List.mem_cons,List.not_mem_nil,or_false] at row
        rcases row with rfl | rfl | rfl <;> rfl
    exact ⟨small,congrArg List.singleton (asciiLower_plain small)⟩
  textPlain cs _ := by
    rw [ascii_text]
    exact List.map_eq_flatMap

def docsColumn : AnalyzedColumn :=
  ⟨"docs","json_nested<array<__nested__1>>",true,none,true,"json_nested<array<__nested__1>>",none,false⟩

theorem docs_match : WordsAgree "docs" ∧ ∀ name ∈ NestedNames.produced
    (nestedNames (Fixtures.catalog .postgreSQL) "ListDocs" [⟨1,[⟨"id","int32",false⟩]⟩] [docsColumn]),
      toPascalCase name = Identifiers.toPascalCase name := by
  have words := lowercase_agrees ascii_names "docs"
  refine ⟨words,(references_match_iff ascii_names _).mpr fun col member _ => ?_⟩
  rw [List.mem_singleton.mp member]
  exact words

end Docs

section DottedCapital

-- The letters of ASCII, and the capital whose small letter has a dot of its own.
@[reducible] def dotted : CaseMap where
  lowercase s := String.ofList (s.toList.flatMap fun c => if c = 'İ' then ['i','\u0307'] else [asciiLower c])
  uppercase := asciiUppercase
  lowerChar c := if c = 'İ' then ['i','\u0307'] else [asciiLower c]
  upperChar c := [asciiUpper c]
  isLower := asciiIsLower
  isUpper c := asciiIsUpper c || c = 'İ'
  isAlphanumeric c := asciiIsLower c || asciiIsUpper c || isDigit c || c = 'İ'

local instance dottedCase : CaseMap := dotted
local instance dottedPrinter : Printer := Fixtures.printer

open Fixtures

def readings : Table := ⟨[⟨"İd","unknown",true,none,false⟩],"readings"⟩

def readingsCatalog : Catalog :=
  {catalog .postgreSQL with tables:=(catalog .postgreSQL).tables.insert "readings" readings}

-- SELECT "İd" - json_agg(u) FROM readings, users u
def dottedDocs : ParsedQuery :=
  parsed "SELECT \"İd\" - json_agg(u) FROM readings, users u" <| .query <| ofBody <|
    select [.binaryOp (.identifier ⟨"İd",true⟩) .minus (call "json_agg" [column "u"])]
      [source (table "readings"),source (aliased "users" "u")] none

theorem dotted_differs : ∃ analyzed,analyze readingsCatalog dottedDocs = some (.ok analyzed) ∧
    analyzed.nestedStructs.map (·.name) = ["query_row_İd"] ∧
      toPascalCase "query_row_İd" ≠ Identifiers.toPascalCase "query_row_İd" := by
  refine ⟨_,rfl,rfl,?_⟩
  decide +kernel

end DottedCapital

end Scythe.NestedReferences
