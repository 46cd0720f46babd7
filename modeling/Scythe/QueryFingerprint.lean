import Mathlib.Data.List.Perm.Basic
import Mathlib.Tactic.Tauto
import Scythe.Fingerprint
import Scythe.Lib.Delimited
import Scythe.Types

namespace Scythe.QueryFingerprint
open Text Delimited

def commandText : QueryCommand → String
  | .one => "one"
  | .opt => "opt"
  | .many => "many"
  | .exec => "exec"
  | .execResult => "exec_result"
  | .execRows => "exec_rows"
  | .batch => "batch"
  | .grouped => "grouped"

def fieldLetter (c : Char) : Option Char :=
  if c = '\\' then some '\\' else
  if c = '\t' then some 't' else
  if c = '\n' then some 'n' else
  if c = '\r' then some 'r' else none

def escapeFieldChar (c : Char) : List Char :=
  match fieldLetter c with
  | some letter => ['\\',letter]
  | none => [c]

def escapeField (value : String) : String :=
  if value.toList.any (fun c => (fieldLetter c).isSome) then String.ofList (value.toList.flatMap escapeFieldChar)
  else value

def paramLine (escapedQueryName : String) (idx : Nat) (param : AnalyzedParam) : String :=
  record ["param",escapedQueryName,toString idx,escapeField param.name,escapeField param.neutralType]

def columnLine (escapedQueryName : String) (idx : Nat) (column : AnalyzedColumn) : String :=
  record ["column",escapedQueryName,toString idx,escapeField column.name,escapeField column.neutralType,
    flag column.nullable]

def nestedStructLine (escapedQueryName : String) (idx : Nat) (nested : NestedStructInfo) : String :=
  record ["nested",escapedQueryName,toString idx,escapeField nested.name,toString nested.fields.length]

def nestedFieldLine (escapedQueryName : String) (structIdx fieldIdx : Nat) (field : NestedFieldInfo) : String :=
  record ["nfield",escapedQueryName,toString structIdx,toString fieldIdx,escapeField field.name,
    escapeField field.neutralType,flag field.nullable]

def compositeLine (escapedQueryName compositeName : String) (composite : CompositeInfo) : String :=
  record ["composite",escapedQueryName,compositeName,toString composite.fields.length]

def compositeFieldLine (escapedQueryName compositeName : String) (fieldIdx : Nat) (field : CompositeFieldInfo) :
    String :=
  record ["cfield",escapedQueryName,compositeName,toString fieldIdx,escapeField field.name,
    escapeField field.neutralType,flag field.nullable]

def queryLine (query : AnalyzedQuery) : String :=
  record ["query",escapeField query.name,commandText query.command,toString query.params.length,
    toString query.columns.length]

def nestedLines (name : String) (idx : Nat) (nested : NestedStructInfo) : List String :=
  nestedStructLine name idx nested :: nested.fields.mapIdx (nestedFieldLine name idx)

def compositeLines (name : String) (composite : CompositeInfo) : List String :=
  compositeLine name (escapeField composite.sqlName) composite ::
    composite.fields.mapIdx (compositeFieldLine name (escapeField composite.sqlName))

def sortComposites (composites : List CompositeInfo) : List CompositeInfo := sortBy (·.sqlName) composites

def bodyLines (query : AnalyzedQuery) : List String :=
  let name := escapeField query.name
  query.params.mapIdx (paramLine name) ++ query.columns.mapIdx (columnLine name) ++
    (query.nestedStructs.mapIdx (nestedLines name)).flatten ++
    (sortComposites query.composites).flatMap (compositeLines name)

def sortQueries (queries : List AnalyzedQuery) : List AnalyzedQuery := sortBy (·.name) queries

def canonicalForm (queries : List AnalyzedQuery) : String :=
  join "\n" ((sortQueries queries).flatMap fun query => queryLine query :: bodyLines query)

-- What of a query determines the code that is generated for it.
structure Split where
  table : String
  keyColumn : String
  parentColumns : List (String × String × Bool)
  childColumns : List (String × String × Bool)
  deriving DecidableEq,Repr

structure Signature where
  name : String
  command : QueryCommand
  params : List (String × String × Bool)
  columns : List (String × String × Bool)
  nestedStructs : List NestedStructInfo
  composites : List CompositeInfo
  groupBy : Option Split
  deriving DecidableEq,Repr

def columnPart (column : AnalyzedColumn) : String × String × Bool := (column.name,column.neutralType,column.nullable)

def splitPart (config : GroupByConfig) : Split where
  table := config.table
  keyColumn := config.keyColumn
  parentColumns := config.parentColumns.map columnPart
  childColumns := config.childColumns.map columnPart

def signature (query : AnalyzedQuery) : Signature where
  name := query.name
  command := query.command
  params := query.params.map fun param => (param.name,param.neutralType,param.nullable)
  columns := query.columns.map columnPart
  nestedStructs := query.nestedStructs
  composites := sortComposites query.composites
  groupBy := query.groupBy.map splitPart

-- The parts that no line holds.
structure Hidden where
  paramsNullable : List Bool
  groupBy : Option Split
  deriving DecidableEq,Repr

def hidden (query : AnalyzedQuery) : Hidden where
  paramsNullable := query.params.map (·.nullable)
  groupBy := query.groupBy.map splitPart

-- The parts that the lines hold.
structure Written where
  name : String
  command : QueryCommand
  params : List (String × String)
  columns : List (String × String × Bool)
  nestedStructs : List NestedStructInfo
  composites : List CompositeInfo
  deriving DecidableEq,Repr

def written (query : AnalyzedQuery) : Written where
  name := query.name
  command := query.command
  params := query.params.map fun param => (param.name,param.neutralType)
  columns := query.columns.map columnPart
  nestedStructs := query.nestedStructs
  composites := sortComposites query.composites

theorem signature_iff (q r : AnalyzedQuery) : signature q = signature r ↔ written q = written r ∧ hidden q = hidden r := by
  have params : (q.params.map fun param => (param.name,param.neutralType,param.nullable)) =
      (r.params.map fun param => (param.name,param.neutralType,param.nullable)) ↔
      (q.params.map fun param => (param.name,param.neutralType)) =
        (r.params.map fun param => (param.name,param.neutralType)) ∧
      q.params.map (·.nullable) = r.params.map (·.nullable) := by
    generalize q.params = xs
    generalize r.params = ys
    induction xs generalizing ys with
    | nil => cases ys <;> simp
    | cons x xs ih =>
      cases ys with
      | nil => simp
      | cons y ys =>
        simp only [List.map_cons,List.cons.injEq,Prod.mk.injEq,ih]
        tauto
  simp only [signature,written,hidden,Signature.mk.injEq,Written.mk.injEq,Hidden.mk.injEq,params]
  tauto


-- Fields stand between tabs and lines between line feeds.
def separators : List Char := ['\t','\n']

def fieldEscape : Escape where
  letter := fieldLetter
  slash := by decide
  apart := by
    intro c d same special
    unfold fieldLetter at same special
    split_ifs at same special <;> simp_all

theorem escapeField_eq (value : String) : escapeField value = String.ofList (fieldEscape.chars value.toList) := by
  have each : ∀ c,(fieldEscape.token c).spelled = escapeFieldChar c := by
    intro c
    unfold escapeFieldChar Escape.token
    rw [show fieldEscape.letter c = fieldLetter c from rfl]
    cases fieldLetter c <;> rfl
  unfold escapeField Escape.chars
  simp only [each]
  split
  · rfl
  · rename_i plain
    apply String.toList_inj.mp
    rw [String.toList_ofList]
    generalize value.toList = cs at plain
    induction cs with
    | nil => rfl
    | cons c cs ih =>
      simp only [List.any_cons,Bool.or_eq_true,not_or] at plain
      have alone : escapeFieldChar c = [c] := by
        unfold escapeFieldChar
        cases is : fieldLetter c with
        | none => rfl
        | some letter => simp [is] at plain
      rw [List.flatMap_cons,alone,← ih plain.2]
      rfl

theorem escapeField_inj {value other : String} (equal : escapeField value = escapeField other) : value = other := by
  rw [escapeField_eq,escapeField_eq,String.ofList_inj] at equal
  exact String.toList_inj.mp (fieldEscape.chars_inj equal)

theorem part_escapeField (value : String) : Part separators (escapeField value) := by
  rw [escapeField_eq]
  apply fieldEscape.part_chars
  intro c member
  simp only [separators,List.mem_cons,List.not_mem_nil,or_false] at member
  rcases member with rfl | rfl <;> decide

theorem part_number (n : Nat) : Part separators (toString n) := part_nat (by decide) n

theorem part_flag (value : Bool) : Part separators (flag value) := by
  cases value <;> exact part_checked (by decide)

theorem flag_inj {value other : Bool} (equal : flag value = flag other) : value = other := by
  revert equal
  cases value <;> cases other <;> decide

theorem part_command (command : QueryCommand) : Part separators (commandText command) := by
  cases command <;> exact part_checked (by decide)

theorem command_inj {command other : QueryCommand} (equal : commandText command = commandText other) :
    command = other := by
  revert equal
  cases command <;> cases other <;> decide

def tags : List String := ["query","param","column","nested","nfield","composite","cfield"]

theorem part_tag {tag : String} (among : tag ∈ tags) : Part separators tag := by
  simp only [tags,List.mem_cons,List.not_mem_nil,or_false] at among
  rcases among with rfl | rfl | rfl | rfl | rfl | rfl | rfl <;> exact part_checked (by decide)

theorem record_eq (fields : List String) : record fields = join (String.ofList ['\t']) fields := rfl

def Solid (fields : List String) : Prop := ∀ field ∈ fields,Part separators field

theorem solid_nil : Solid [] := List.forall_mem_nil _

theorem solid_cons {field : String} {fields : List String} : Solid (field :: fields) ↔ Part separators field ∧ Solid fields :=
  List.forall_mem_cons

theorem record_inj {tag : String} (among : tag ∈ tags) {xs ys : List String} (left : Solid xs) (right : Solid ys)
    (equal : record (tag :: xs) = record (tag :: ys)) : xs = ys := by
  have tab : ['\t'] ⊆ separators := by simp [separators]
  have leftParts : Solid (tag :: xs) := solid_cons.mpr ⟨part_tag among,left⟩
  have rightParts : Solid (tag :: ys) := solid_cons.mpr ⟨part_tag among,right⟩
  have same := join_inj (by decide) (fun x member => (leftParts x member).of_subset tab)
    (fun y member => (rightParts y member).of_subset tab) (List.cons_ne_nil _ _) (List.cons_ne_nil _ _) equal
  exact (List.cons.inj same).2

theorem part_record {tag : String} (among : tag ∈ tags) {fields : List String} (each : Solid fields) :
    Part ['\n'] (record (tag :: fields)) := by
  rw [record_eq]
  apply Part.join (part_checked (by decide))
  intro field member
  exact ((solid_cons.mpr ⟨part_tag among,each⟩) field member).of_subset (by simp [separators])

def tagged (line : String) : String := tagOf '\t' line

theorem tagged_record {tag : String} (among : tag ∈ tags) (next : String) (fields : List String) :
    tagged (record (tag :: next :: fields)) = tag := by
  rw [record_eq]
  apply tagOf_join
  revert tag
  decide

theorem queryFields_solid (query : AnalyzedQuery) : Solid [escapeField query.name,commandText query.command,
    toString query.params.length,toString query.columns.length] := by
  simp only [solid_cons,part_escapeField,part_command,part_number,solid_nil,and_self]

theorem queryLine_inj {q r : AnalyzedQuery} (equal : queryLine q = queryLine r) :
    q.name = r.name ∧ q.command = r.command ∧ q.params.length = r.params.length ∧
      q.columns.length = r.columns.length := by
  have fields := record_inj (by decide) (queryFields_solid q) (queryFields_solid r) equal
  simp only [List.cons.injEq,and_true] at fields
  exact ⟨escapeField_inj fields.1,command_inj fields.2.1,nat_inj fields.2.2.1,nat_inj fields.2.2.2⟩

-- A name, a type and whether there may be no value, behind what leads to them.
theorem member_solid {front : List String} (lead : Solid front) (n t : String) (b : Bool) :
    Solid (front ++ [escapeField n,escapeField t,flag b]) := by
  have last : Solid [escapeField n,escapeField t,flag b] := by
    simp only [solid_cons,part_escapeField,part_flag,solid_nil,and_self]
  intro field member
  exact (List.mem_append.mp member).elim (lead field) (last field)

theorem member_inj {tag : String} (among : tag ∈ tags) {front : List String} (lead : Solid front)
    {n t m u : String} {b c : Bool}
    (equal : record (tag :: (front ++ [escapeField n,escapeField t,flag b])) =
      record (tag :: (front ++ [escapeField m,escapeField u,flag c]))) : (n,t,b) = (m,u,c) := by
  have fields := List.append_cancel_left (record_inj among (member_solid lead n t b) (member_solid lead m u c) equal)
  simp only [List.cons.injEq,and_true] at fields
  exact Prod.ext (escapeField_inj fields.1) (Prod.ext (escapeField_inj fields.2.1) (flag_inj fields.2.2))

section
variable {name : String} (solid : Part separators name)
include solid

theorem lead_solid {other : String} (part : Part separators other) : Solid [name,other] := by
  simp only [solid_cons,solid,part,solid_nil,and_self]

theorem deep_solid {other : String} (part : Part separators other) (idx : Nat) : Solid [name,other,toString idx] := by
  simp only [solid_cons,solid,part,part_number,solid_nil,and_self]

theorem paramFields_solid (idx : Nat) (param : AnalyzedParam) :
    Solid [name,toString idx,escapeField param.name,escapeField param.neutralType] := by
  simp only [solid_cons,solid,part_escapeField,part_number,solid_nil,and_self]

theorem nestedFields_solid (idx : Nat) (nested : NestedStructInfo) :
    Solid [name,toString idx,escapeField nested.name,toString nested.fields.length] := by
  simp only [solid_cons,solid,part_escapeField,part_number,solid_nil,and_self]

theorem compositeFields_solid (composite : CompositeInfo) :
    Solid [name,escapeField composite.sqlName,toString composite.fields.length] := by
  simp only [solid_cons,solid,part_escapeField,part_number,solid_nil,and_self]

theorem paramLine_inj (idx : Nat) {p q : AnalyzedParam} (equal : paramLine name idx p = paramLine name idx q) :
    (p.name,p.neutralType) = (q.name,q.neutralType) := by
  have fields := record_inj (by decide) (paramFields_solid solid idx p) (paramFields_solid solid idx q) equal
  simp only [List.cons.injEq,true_and,and_true] at fields
  exact Prod.ext (escapeField_inj fields.1) (escapeField_inj fields.2)

theorem columnLine_inj (idx : Nat) {p q : AnalyzedColumn} (equal : columnLine name idx p = columnLine name idx q) :
    columnPart p = columnPart q :=
  member_inj (by decide) (lead_solid solid (part_number idx)) equal

theorem nestedFieldLine_inj (structIdx idx : Nat) {f g : NestedFieldInfo}
    (equal : nestedFieldLine name structIdx idx f = nestedFieldLine name structIdx idx g) : f = g := by
  have same := member_inj (by decide) (deep_solid solid (part_number structIdx) idx) equal
  cases f
  cases g
  cases same
  rfl

theorem compositeFieldLine_inj {composite : String} (part : Part separators composite) (idx : Nat)
    {f g : CompositeFieldInfo} (equal : compositeFieldLine name composite idx f = compositeFieldLine name composite idx g) :
    f = g := by
  have same := member_inj (by decide) (deep_solid solid part idx) equal
  cases f
  cases g
  cases same
  rfl

theorem nestedStructLine_inj {i j : Nat} {x y : NestedStructInfo}
    (equal : nestedStructLine name i x = nestedStructLine name j y) : i = j ∧ x.name = y.name := by
  have fields := record_inj (by decide) (nestedFields_solid solid i x) (nestedFields_solid solid j y) equal
  simp only [List.cons.injEq,true_and,and_true] at fields
  exact ⟨nat_inj fields.1,escapeField_inj fields.2.1⟩

theorem compositeLine_inj {x y : CompositeInfo}
    (equal : compositeLine name (escapeField x.sqlName) x = compositeLine name (escapeField y.sqlName) y) :
    x.sqlName = y.sqlName := by
  have fields := record_inj (by decide) (compositeFields_solid solid x) (compositeFields_solid solid y) equal
  simp only [List.cons.injEq,true_and,and_true] at fields
  exact escapeField_inj fields.1

omit solid in
theorem memberRows_tagged {α : Type} {tag other : String} (among : tag ∈ tags) (differ : tag ≠ other)
    {next : α → String} {fields : Nat → α → List String} {line : Nat → α → String}
    (written : ∀ idx a,line idx a = record (tag :: next a :: fields idx a)) (rows : List α) :
    ∀ row ∈ rows.mapIdx line,decide (tagged row = other) = false := by
  intro row member
  obtain ⟨idx,inside,rfl⟩ := List.mem_mapIdx.mp member
  rw [written,tagged_record among]
  exact decide_eq_false differ

theorem compositeLines_inj {xs ys : List CompositeInfo}
    (equal : xs.flatMap (compositeLines name) = ys.flatMap (compositeLines name)) : xs = ys := by
  refine @blocks_eq _ _ (fun line => tagged line = "composite") _ _ ?_ ?_ ?_ xs ys equal
  · intro composite
    exact decide_eq_true (tagged_record (by decide) _ _)
  · intro composite
    exact memberRows_tagged (by decide) (by decide) (fun _ _ => rfl) _
  · rintro ⟨sqlName,fields⟩ ⟨other,others⟩ heading rows
    have names := compositeLine_inj solid heading
    dsimp only at names rows
    subst names
    have same := mapIdx_eq (fun i f g => compositeFieldLine_inj solid (part_escapeField _) i) rows
    rw [same]

-- Nested structs are numbered, so each line tells its own.
theorem nestedLines_inj {xs ys : List NestedStructInfo}
    (equal : (xs.mapIdx (nestedLines name)).flatten = (ys.mapIdx (nestedLines name)).flatten) : xs = ys := by
  have numbered : ∀ zs : List NestedStructInfo,(zs.mapIdx (nestedLines name)).flatten =
      zs.zipIdx.flatMap fun pair => nestedLines name pair.2 pair.1 := by
    intro zs
    rw [List.mapIdx_eq_zipIdx_map,List.flatMap_def]
  rw [numbered,numbered] at equal
  have pairs : xs.zipIdx = ys.zipIdx := by
    refine @blocks_eq _ _ (fun line => tagged line = "nested") _ _ ?_ ?_ ?_ _ _ equal
    · intro pair
      exact decide_eq_true (tagged_record (by decide) _ _)
    · intro pair
      exact memberRows_tagged (by decide) (by decide) (fun _ _ => rfl) _
    · rintro ⟨⟨struct,fields⟩,i⟩ ⟨⟨other,others⟩,j⟩ heading rows
      obtain ⟨places,names⟩ := nestedStructLine_inj solid heading
      dsimp only at places names rows
      subst places names
      have same := mapIdx_eq (fun k f g => nestedFieldLine_inj solid i k) rows
      rw [same]
  have firsts := congrArg (List.map Prod.fst) pairs
  simpa using firsts

end

theorem row_tag {α : Type} {line : Nat → α → String} {tag : String} (tagging : ∀ idx a,tagged (line idx a) = tag)
    (rows : List α) : ∀ row ∈ rows.mapIdx line,tagged row = tag := by
  intro row member
  obtain ⟨idx,inside,rfl⟩ := List.mem_mapIdx.mp member
  exact tagging idx _

def nestedTag (line : String) : Bool := tagged line = "nested" || tagged line = "nfield"

theorem nestedLines_tags (name : String) (nested : List NestedStructInfo) :
    ∀ row ∈ (nested.mapIdx (nestedLines name)).flatten,nestedTag row := by
  intro row member
  obtain ⟨block,among,inside⟩ := List.mem_flatten.mp member
  obtain ⟨idx,bound,rfl⟩ := List.mem_mapIdx.mp among
  rcases List.mem_cons.mp inside with rfl | field
  · have tag : tagged (nestedStructLine name idx nested[idx]) = "nested" := tagged_record (by decide) _ _
    simp [nestedTag,tag]
  · have tag := @row_tag _ _ "nfield" (fun _ _ => tagged_record (by decide) _ _) _ row field
    simp [nestedTag,tag]

theorem compositeLines_tags (name : String) (composites : List CompositeInfo) :
    ∀ row ∈ composites.flatMap (compositeLines name),nestedTag row = false ∧ tagged row ≠ "query" := by
  intro row member
  obtain ⟨composite,among,inside⟩ := List.mem_flatMap.mp member
  rcases List.mem_cons.mp inside with rfl | field
  · have tag : tagged (compositeLine name (escapeField composite.sqlName) composite) = "composite" :=
      tagged_record (by decide) _ _
    simp [nestedTag,tag]
  · have tag := @row_tag _ _ "cfield" (fun _ _ => tagged_record (by decide) _ _) _ row field
    simp [nestedTag,tag]

theorem written_of_lines {q r : AnalyzedQuery} (headings : queryLine q = queryLine r) (bodies : bodyLines q = bodyLines r) :
    written q = written r := by
  obtain ⟨names,commands,paramCounts,columnCounts⟩ := queryLine_inj headings
  have solid := part_escapeField q.name
  unfold bodyLines at bodies
  rw [← names] at bodies
  dsimp only at bodies
  simp only [List.append_assoc] at bodies
  obtain ⟨params,afterParams⟩ := List.append_inj bodies (by simpa using paramCounts)
  obtain ⟨columns,afterColumns⟩ := List.append_inj afterParams (by simpa using columnCounts)
  obtain ⟨nested,composites⟩ := sections_inj (nestedLines_tags _ _)
    (fun row member => (compositeLines_tags _ _ row member).1) (nestedLines_tags _ _)
    (fun row member => (compositeLines_tags _ _ row member).1) afterColumns
  have sameParams := map_eq_of_mapIdx (paramLine_inj solid) params
  have sameColumns := map_eq_of_mapIdx (columnLine_inj solid) columns
  have sameNested := nestedLines_inj solid nested
  have sameComposites := compositeLines_inj solid composites
  simp only [written,names,commands,sameParams,sameColumns,sameNested,sameComposites]

theorem lines_of_written {q r : AnalyzedQuery} (same : written q = written r) :
    queryLine q = queryLine r ∧ bodyLines q = bodyLines r := by
  simp only [written,Written.mk.injEq] at same
  obtain ⟨names,commands,params,columns,nested,composites⟩ := same
  have paramCounts := congrArg List.length params
  have columnCounts := congrArg List.length columns
  have paramLines := congrArg (List.mapIdx fun idx (part : String × String) =>
    record ["param",escapeField r.name,toString idx,escapeField part.1,escapeField part.2]) params
  have columnLines := congrArg (List.mapIdx fun idx (part : String × String × Bool) =>
    record ["column",escapeField r.name,toString idx,escapeField part.1,escapeField part.2.1,flag part.2.2]) columns
  simp only [List.length_map] at paramCounts columnCounts
  rw [Register.mapIdx_map,Register.mapIdx_map] at paramLines columnLines
  constructor
  · rw [queryLine,queryLine,names,commands,paramCounts,columnCounts]
  · unfold bodyLines
    rw [names,nested,composites]
    exact congrArg₂ (· ++ · ++ _ ++ _) paramLines columnLines

theorem bodyLines_tags (query : AnalyzedQuery) : ∀ row ∈ bodyLines query,decide (tagged row = "query") = false := by
  intro row member
  apply decide_eq_false
  unfold bodyLines at member
  simp only [List.mem_append] at member
  rcases member with ((inParams | inColumns) | inNested) | inComposites
  · have tag := @row_tag _ _ "param" (fun _ _ => tagged_record (by decide) _ _) _ row inParams
    rw [tag]
    decide
  · have tag := @row_tag _ _ "column" (fun _ _ => tagged_record (by decide) _ _) _ row inColumns
    rw [tag]
    decide
  · have tag := nestedLines_tags _ _ row inNested
    intro query
    rw [nestedTag,query] at tag
    cases tag
  · exact (compositeLines_tags _ _ row inComposites).2

def queryLines (queries : List AnalyzedQuery) : List String :=
  queries.flatMap fun query => queryLine query :: bodyLines query

theorem map_written_iff (xs ys : List AnalyzedQuery) : queryLines xs = queryLines ys ↔ xs.map written = ys.map written := by
  constructor
  · intro equal
    have blocks := @blocks_inj _ _ (fun line => tagged line = "query") _ _
      (fun query => decide_eq_true (tagged_record (by decide) _ _)) bodyLines_tags _ _ equal
    clear equal
    induction blocks with
    | nil => rfl
    | cons head tail ih => rw [List.map_cons,List.map_cons,written_of_lines head.1 head.2,ih]
  · intro equal
    induction xs generalizing ys with
    | nil =>
      cases ys with
      | nil => rfl
      | cons y ys => cases equal
    | cons x xs ih =>
      cases ys with
      | nil => cases equal
      | cons y ys =>
        rw [List.map_cons,List.map_cons,List.cons.injEq] at equal
        have rest := ih ys equal.2
        obtain ⟨headings,bodies⟩ := lines_of_written equal.1
        unfold queryLines at rest ⊢
        rw [List.flatMap_cons,List.flatMap_cons,headings,bodies,rest]

-- Every line is one line, and it begins with its tag.
def Line (line : String) : Prop := Part ['\n'] line ∧ line ≠ ""

theorem line_record {tag : String} (among : tag ∈ tags) {next : String} {fields : List String}
    (solid : Solid (next :: fields)) : Line (record (tag :: next :: fields)) := by
  refine ⟨part_record among solid,?_⟩
  intro empty
  have tag := tagged_record among next fields
  rw [empty] at tag
  subst tag
  revert among
  decide

theorem lines_mapIdx {α : Type} {line : Nat → α → String} (each : ∀ idx a,Line (line idx a)) (rows : List α) :
    ∀ row ∈ rows.mapIdx line,Line row := by
  intro row member
  obtain ⟨idx,inside,rfl⟩ := List.mem_mapIdx.mp member
  exact each idx _

theorem bodyLines_lines (query : AnalyzedQuery) : ∀ line ∈ bodyLines query,Line line := by
  have solid := part_escapeField query.name
  intro line member
  unfold bodyLines at member
  simp only [List.mem_append] at member
  rcases member with ((inParams | inColumns) | inNested) | inComposites
  · refine lines_mapIdx ?_ _ line inParams
    exact fun idx param => line_record (by decide) (paramFields_solid solid idx param)
  · refine lines_mapIdx ?_ _ line inColumns
    exact fun idx column => line_record (by decide) (member_solid (lead_solid solid (part_number idx)) _ _ _)
  · obtain ⟨block,among,inside⟩ := List.mem_flatten.mp inNested
    obtain ⟨idx,bound,rfl⟩ := List.mem_mapIdx.mp among
    rcases List.mem_cons.mp inside with rfl | field
    · exact line_record (by decide) (nestedFields_solid solid idx _)
    · refine lines_mapIdx ?_ _ line field
      exact fun k f => line_record (by decide) (member_solid (deep_solid solid (part_number idx) k) _ _ _)
  · obtain ⟨composite,among,inside⟩ := List.mem_flatMap.mp inComposites
    rcases List.mem_cons.mp inside with rfl | field
    · exact line_record (by decide) (compositeFields_solid solid composite)
    · refine lines_mapIdx ?_ _ line field
      exact fun k f => line_record (by decide) (member_solid (deep_solid solid (part_escapeField _) k) _ _ _)

theorem queryLines_lines (queries : List AnalyzedQuery) : ∀ line ∈ queryLines queries,Line line := by
  intro line member
  obtain ⟨query,among,inside⟩ := List.mem_flatMap.mp member
  rcases List.mem_cons.mp inside with rfl | inBody
  · exact line_record (by decide) (queryFields_solid query)
  · exact bodyLines_lines query line inBody

theorem canonicalForm_iff {a b : List AnalyzedQuery} (distinct : (a.map (·.name)).Nodup) :
    canonicalForm a = canonicalForm b ↔ (a.map written).Perm (b.map written) := by
  have sorted : ∀ queries : List AnalyzedQuery,(sortQueries queries).map written =
      sortBy Written.name (queries.map written) := 
    fun queries => (@sortBy_map _ _ written AnalyzedQuery.name Written.name (fun _ => rfl) queries).symm
  constructor
  · intro equal
    have lines := join_written_inj (by decide) (queryLines_lines _) (queryLines_lines _) equal
    have same := (map_written_iff _ _).mp lines
    rw [sorted,sorted] at same
    have first := sortBy_perm Written.name (a.map written)
    rw [same] at first
    exact first.symm.trans (sortBy_perm _ _)
  · intro perm
    have keys : ((a.map written).map Written.name).Nodup := by simpa [Function.comp_def,written] using distinct
    have same := sortBy_eq keys perm
    rw [← sorted,← sorted] at same
    exact congrArg (join "\n") ((map_written_iff _ _).mpr same)

theorem signature_found {a b : List AnalyzedQuery} (perm : (a.map written).Perm (b.map written))
    (agree : ∀ q ∈ a,∀ r ∈ b,q.name = r.name → hidden q = hidden r) {part : Signature} (member : part ∈ a.map signature) :
    part ∈ b.map signature := by
  obtain ⟨q,inside,rfl⟩ := List.mem_map.mp member
  obtain ⟨r,found,same⟩ := List.mem_map.mp (perm.mem_iff.mp (List.mem_map_of_mem inside))
  have names : q.name = r.name := (congrArg Written.name same).symm
  have equal := (signature_iff q r).mpr ⟨same.symm,agree q inside r found names⟩
  rw [equal]
  exact List.mem_map_of_mem found

theorem signatures_nodup {a : List AnalyzedQuery} (distinct : (a.map (·.name)).Nodup) : (a.map signature).Nodup := by
  apply List.Nodup.of_map Signature.name
  simpa [Function.comp_def,signature] using distinct

-- Two sets of queries that are written alike have the same signatures, as long
-- as queries of one name agree in what is not written.
theorem written_signatures {a b : List AnalyzedQuery} (distinct : (a.map (·.name)).Nodup)
    (other : (b.map (·.name)).Nodup) (perm : (a.map written).Perm (b.map written)) :
    (a.map signature).Perm (b.map signature) ↔ ∀ q ∈ a,∀ r ∈ b,q.name = r.name → hidden q = hidden r := by
  constructor
  · intro signatures q inA r inB names
    obtain ⟨found,inside,same⟩ := List.mem_map.mp (signatures.mem_iff.mp (List.mem_map_of_mem inA))
    have foundName : found.name = r.name := (congrArg Signature.name same).trans names
    have single := eq_of_key other inside inB foundName
    rw [← single]
    exact ((signature_iff q found).mp same.symm).2
  · intro agree
    apply (List.perm_ext_iff_of_nodup (signatures_nodup distinct) (signatures_nodup other)).mpr
    intro part
    constructor
    · intro member
      exact signature_found perm agree member
    · intro member
      apply signature_found perm.symm ?_ member
      exact fun q inB r inA names => (agree r inA q inB names.symm).symm

theorem same_signature_iff {a b : List AnalyzedQuery} (distinct : (a.map (·.name)).Nodup)
    (other : (b.map (·.name)).Nodup) :
    ((canonicalForm a = canonicalForm b → (a.map signature).Perm (b.map signature)) ∧
      ∀ c : List AnalyzedQuery,c.Perm a → canonicalForm c = canonicalForm a) ↔
    ((a.map written).Perm (b.map written) → ∀ q ∈ a,∀ r ∈ b,q.name = r.name → hidden q = hidden r) := by
  have reordered : ∀ c : List AnalyzedQuery,c.Perm a → canonicalForm c = canonicalForm a := by
    intro c perm
    have names : (c.map (·.name)).Nodup := (perm.map _).nodup_iff.mpr distinct
    exact (canonicalForm_iff names).mpr (perm.map _)
  rw [canonicalForm_iff distinct]
  constructor
  · rintro ⟨captures,_⟩ perm
    exact (written_signatures distinct other perm).mp (captures perm)
  · intro agree
    exact ⟨fun perm => (written_signatures distinct other perm).mpr (agree perm),reordered⟩

def byStatus : AnalyzedQuery where
  name := "ListOrders"
  command := .many
  sql := "SELECT id FROM orders WHERE status = $1"
  columns := [⟨"id","int32",false,none,false,"integer",some "orders",false⟩]
  params := [⟨"status","string",false,1,some "orders"⟩]
  deprecated := none
  sourceTable := some "orders"
  composites := []
  enums := []
  optionalParams := []
  groupBy := none
  custom := []
  nestedStructs := []

-- The same query under `@optional status`, which makes the argument nullable.
def byOptionalStatus : AnalyzedQuery :=
  { byStatus with optionalParams := ["status"],params := [⟨"status","string",true,1,some "orders"⟩] }

def byId : AnalyzedQuery := { byStatus with name := "GetOrder",params := [⟨"id","int32",false,1,some "orders"⟩] }

theorem optional_unseen : canonicalForm [byStatus] = canonicalForm [byOptionalStatus] ∧
    ¬([byStatus].map signature).Perm ([byOptionalStatus].map signature) := by
  constructor
  · apply (canonicalForm_iff (by decide)).mpr
    exact List.Perm.refl _
  · decide

theorem orders_captured :
    (canonicalForm [byStatus,byId] = canonicalForm [byId,byStatus] →
      ([byStatus,byId].map signature).Perm ([byId,byStatus].map signature)) ∧
    ∀ c : List AnalyzedQuery,c.Perm [byStatus,byId] → canonicalForm c = canonicalForm [byStatus,byId] := by
  apply (same_signature_iff (by decide) (by decide)).mpr
  intro _ q inA r inB names
  simp only [List.mem_cons,List.not_mem_nil,or_false] at inA inB
  rcases inA with rfl | rfl <;> rcases inB with rfl | rfl
  · exact absurd names (by decide)
  · rfl
  · rfl
  · exact absurd names (by decide)

end Scythe.QueryFingerprint
