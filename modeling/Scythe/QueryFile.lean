import Scythe.Preprocess
import Scythe.Verification

-- A query file falls into blocks, and a block into its annotations and its SQL.
namespace Scythe.QueryFile
open Text Verification

def opensBlock (line : List Char) : Bool :=
  "-- name:".toList.isPrefixOf (line.dropWhile isSpace) || "-- @name".toList.isPrefixOf (line.dropWhile isSpace)

structure Blocks where
  blocks : List (List Char)
  currentBlock : Option (List Char)
  deriving DecidableEq,Repr

def Blocks.push (state : Blocks) (line : List Char) : Blocks :=
  if opensBlock line then ⟨state.blocks ++ state.currentBlock.toList,some line⟩ else
  { state with currentBlock := state.currentBlock.map fun block => block ++ '\n' :: line }

def Blocks.all (state : Blocks) : List (List Char) := state.blocks ++ state.currentBlock.toList

def splitQueryFile (content : List Char) : List (List Char) := ((lines content).foldl Blocks.push ⟨[],none⟩).all

inductive AnnotationError where
  | missing (what : String)
  | invalid (message : String)
  deriving DecidableEq,Repr

def AnnotationError.message : AnnotationError → String
  | .missing what => s!"missing @{what} annotation"
  | .invalid message => message

def commandOf (s : String) : Except AnnotationError QueryCommand :=
  match s with
  | "one" => .ok .one
  | "opt" => .ok .opt
  | "many" => .ok .many
  | "exec" => .ok .exec
  | "exec_result" => .ok .execResult
  | "exec_rows" => .ok .execRows
  | "batch" => .ok .batch
  | "grouped" => .ok .grouped
  | other => .error (.invalid s!"invalid @returns value: {other}")

def validateQueryName (name : String) : Except AnnotationError Unit :=
  match name.toList with
  | [] => .error (.invalid "@name requires a value (e.g. `-- @name GetUser`)")
  | first :: others =>
    if !asciiIsLower first && !asciiIsUpper first && first ≠ '_' then
      .error (.invalid (s!"@name \"{name}\" must start with an ASCII letter or underscore to be a valid " ++
        "identifier in generated code"))
    else
    match others.find? fun c => !asciiIsLower c && !asciiIsUpper c && !isDigit c && c ≠ '_' with
    | some invalid => .error (.invalid (s!"@name \"{name}\" contains '{invalid}'; only ASCII letters, digits and " ++
        "underscores are valid in generated code"))
    | none => .ok ()

def knownAnnotationKeywords : List String := ["name","returns","param","nullable","nonnull","json","deprecated",
  "group_by","optional"]

def annotationTypoDistanceThreshold : Nat := 2

-- The next row of the table, from the row before and the cell to the left.
def distanceRow (charA : Char) : Nat → List Nat → List Char → List Nat
  | left,above :: up :: row,charB :: b =>
    let cell := min (min (up + 1) (left + 1)) (above + if charA = charB then 0 else 1)
    cell :: distanceRow charA cell (up :: row) b
  | _,_,_ => []

def annotationLevenshteinDistance (a b : List Char) : Nat :=
  let last := a.zipIdx.foldl (fun row charA => (charA.2 + 1) :: distanceRow charA.1 (charA.2 + 1) row b)
    (List.range (b.length + 1))
  last.getLastD 0

-- The nearest keyword, and of those the first.
def suggestKnownKeyword (name : List Char) : Option String :=
  let candidates := (knownAnnotationKeywords.map fun candidate =>
    (candidate,annotationLevenshteinDistance name candidate.toList)).filter fun candidate =>
      candidate.2 ≤ annotationTypoDistanceThreshold
  (candidates.foldl (fun (best : Option (String × Nat)) candidate =>
    match best with
    | some found => if found.2 ≤ candidate.2 then best else some candidate
    | none => some candidate) none).map Prod.fst

-- The keyword in lower case, and the value.
def annotationIn (line : List Char) : Option (List Char × List Char) := do
  let rest ← "--".toList.isPrefixOf? (trimChars line)
  let body ← "@".toList.isPrefixOf? (rest.dropWhile isSpace)
  return ((body.takeWhile fun c => !isSpace c).map asciiLower,trimChars (body.dropWhile fun c => !isSpace c))

def listed (value : List Char) : List String :=
  ((splitChars ',' value).map fun part => String.ofList (trimChars part)).filter fun part => part ≠ ""

-- The documentation of a parameter that has no number goes into no generated name.
def positionalParamDoc (value : List Char) : Option PositionalParamDoc := do
  let digits ← "$".toList.isPrefixOf? (value.takeWhile fun c => !isSpace c)
  let position ← parseI64 (String.ofList digits)
  let rest := String.ofList (trimChars (value.dropWhile fun c => !isSpace c))
  let (name,description) := match splitOnce rest ':' with
    | some (name,description) => (trim name,trim description)
    | none => (rest,"")
  if position ≤ 0 ∨ name = "" then none else some ⟨position,name,description⟩

structure Draft where
  name : Option String
  command : Option QueryCommand
  annotations : Annotations
  sqlLines : List (List Char)

def Draft.empty : Draft := ⟨none,none,Annotations.empty,[]⟩

def returnsCommand (value : List Char) : Except AnnotationError QueryCommand :=
  commandOf (String.ofList ((":".toList.isPrefixOf? value).getD value))

def Draft.annotate (draft : Draft) (keyword value : List Char) (lineNo : Nat) : Except AnnotationError Draft :=
  let known := draft.annotations
  match String.ofList keyword with
  | "name" => .ok { draft with name := some (String.ofList value) }
  | "returns" => (returnsCommand value).map fun command => { draft with command := some command }
  | "param" => .ok { draft with annotations := { known with
      positionalParamDocs := known.positionalParamDocs ++ (positionalParamDoc value).toList } }
  | "nullable" => .ok { draft with annotations := { known with
      nullableOverrides := known.nullableOverrides ++ listed value } }
  | "nonnull" => .ok { draft with annotations := { known with
      nonnullOverrides := known.nonnullOverrides ++ listed value } }
  | "json" => .ok { draft with annotations := { known with
      jsonMappings := known.jsonMappings ++ ((splitOnce (String.ofList value) '=').map fun parts =>
        (⟨trim parts.1,trim parts.2⟩ : JsonMapping)).toList } }
  | "deprecated" => .ok { draft with annotations := { known with deprecated := some (String.ofList value) } }
  | "group_by" => .ok { draft with annotations := { known with groupBy := some (String.ofList value) } }
  | "optional" => .ok { draft with annotations := { known with
      optionalParams := known.optionalParams ++ listed value } }
  | other => .ok { draft with annotations := { known with
      custom := known.custom ++ [⟨other,String.ofList value,lineNo,suggestKnownKeyword keyword⟩] } }

def Draft.push (draft : Draft) (line : List Char × Nat) : Except AnnotationError Draft :=
  match annotationIn line.1 with
  | some (keyword,value) => draft.annotate keyword value (line.2 + 1)
  | none => .ok { draft with sqlLines := draft.sqlLines ++ [line.1] }

def Draft.finish (draft : Draft) : Except AnnotationError (Header × List Char) :=
  match draft.name with
  | none => .error (.missing "name")
  | some name => (validateQueryName name).bind fun _ =>
    match draft.command with
    | none => .error (.missing "returns")
    | some command =>
      if command = .grouped ∧ draft.annotations.groupBy = none then
        .error (.invalid "@returns :grouped requires a @group_by annotation (e.g. @group_by users.id)")
      else .ok (⟨name,command,draft.annotations⟩,['\n'].intercalate draft.sqlLines)

-- The annotations of a block, and its SQL.
def readHeader (querySql : List Char) : Except AnnotationError (Header × List Char) :=
  ((lines querySql).zipIdx.foldlM Draft.push Draft.empty).bind Draft.finish

end Scythe.QueryFile
