import Mathlib.Data.List.DropRight
import Scythe.Lib.JsonTree
import Scythe.Lib.Text

-- Which statements a planned schema may hold, and which dynamic SQL.
namespace Scythe.ClusterScope
open Text JsonTree

inductive RoutineLanguage where
  | plpgsql
  | sql
  | other (language : String)

structure RoutineSpec where
  language : RoutineLanguage
  body : String

inductive Verdict where
  | local
  | clusterScope (kind : String)
  | notAllowlisted
  | routine (spec : RoutineSpec)

def field (value : Json) (key : String) : Option String := (value.get key).bind Json.asString

def changesOwner (cmd : Json) : Bool :=
  ((cmd.get "AlterTableCmd").bind fun c => field c "subtype") = some "AT_ChangeOwner"

def sharedObject : Option String → Option String
  | some "OBJECT_ROLE" => some "role"
  | some "OBJECT_DATABASE" => some "database"
  | some "OBJECT_TABLESPACE" => some "tablespace"
  | some "OBJECT_SUBSCRIPTION" => some "subscription"
  | _ => none

def clusterScopeKind (nodeType : String) (value : Json) : Option String :=
  if nodeType ∈ ["CreateRoleStmt","AlterRoleStmt","AlterRoleSetStmt","DropRoleStmt"] then some "role" else
  if nodeType = "GrantRoleStmt" then some "role membership" else
  if nodeType ∈ ["CreatedbStmt","AlterDatabaseStmt","AlterDatabaseSetStmt","AlterDatabaseRefreshCollStmt","DropdbStmt"] then
    some "database" else
  if nodeType ∈ ["CreateTableSpaceStmt","AlterTableSpaceStmt","AlterTableSpaceOptionsStmt","DropTableSpaceStmt",
      "AlterTableMoveAllStmt"] then some "tablespace" else
  if nodeType ∈ ["CreateSubscriptionStmt","AlterSubscriptionStmt","DropSubscriptionStmt"] then some "subscription" else
  if nodeType = "AlterSystemStmt" then some "server configuration" else
  if nodeType ∈ ["DropOwnedStmt","ReassignOwnedStmt","AlterOwnerStmt"] then some "shared ownership" else
  if nodeType = "GrantStmt" then
    match field value "objtype" with
    | some "OBJECT_DATABASE" => some "database"
    | some "OBJECT_TABLESPACE" => some "tablespace"
    | some "OBJECT_PARAMETER_ACL" => some "parameter privilege"
    | _ => none
  else if nodeType = "CommentStmt" ∨ nodeType = "SecLabelStmt" then sharedObject (field value "objtype")
  else if nodeType = "RenameStmt" then sharedObject (field value "renameType")
  else if nodeType = "AlterTableStmt" then
    if (((value.get "cmds").bind Json.asArray).getD []).any changesOwner then some "shared ownership" else none
  else none

def defElem (list : List Json) (name : String) : Option Json :=
  list.findSome? fun entry => (entry.get "DefElem").bind fun d =>
    if field d "defname" = some name then some ((d.get "arg").getD .null) else none

def stringValue (arg : Json) : Option String := (arg.get "String").bind fun s => field s "sval"

def routineLanguage (raw : String) : RoutineLanguage :=
  if raw = "plpgsql" then .plpgsql else if raw = "sql" then .sql else .other raw

def joinBody (arg : Json) : String :=
  String.join (((((arg.get "List").bind fun list => list.get "items").bind Json.asArray).getD []).filterMap stringValue)

def routineSpec (nodeType : String) (value : Json) : Option RoutineSpec :=
  if nodeType = "DoStmt" then
    ((value.get "args").bind Json.asArray).map fun args =>
      ⟨routineLanguage (((defElem args "language").bind stringValue).getD "plpgsql"),
        ((defElem args "as").bind stringValue).getD ""⟩
  else if nodeType = "CreateFunctionStmt" then
    -- A function without a language is not one whose body can be read.
    ((value.get "options").bind Json.asArray).map fun options =>
      ⟨routineLanguage (((defElem options "language").bind stringValue).getD ""),
        ((defElem options "as").map joinBody).getD ""⟩
  else none

def localObjectTypes : List String :=
  ["OBJECT_TABLE","OBJECT_INDEX","OBJECT_SEQUENCE","OBJECT_VIEW","OBJECT_MATVIEW","OBJECT_FOREIGN_TABLE","OBJECT_FUNCTION",
    "OBJECT_PROCEDURE","OBJECT_ROUTINE","OBJECT_TYPE","OBJECT_DOMAIN","OBJECT_POLICY","OBJECT_TRIGGER","OBJECT_COLUMN",
    "OBJECT_CONSTRAINT","OBJECT_SCHEMA"]

def fieldIn (value : Json) (key : String) (types : List String) : Bool := (field value key).any fun t => types.contains t

def isLocalAllowlisted (nodeType : String) (value : Json) : Bool :=
  if nodeType ∈ ["CreateStmt","IndexStmt","ViewStmt","CreateSeqStmt","CreateEnumStmt","CompositeTypeStmt",
      "CreateDomainStmt","CreatePolicyStmt","CreateTrigStmt","CreateEventTrigStmt","CreateUserMappingStmt",
      "AlterUserMappingStmt","AlterSeqStmt","AlterFunctionStmt","AlterPolicyStmt","CreateSchemaStmt"] then true else
  if nodeType = "CreateTableAsStmt" then fieldIn value "objtype" ["OBJECT_TABLE","OBJECT_MATVIEW"] else
  if nodeType = "AlterTableStmt" then
    fieldIn value "objtype" ["OBJECT_TABLE","OBJECT_INDEX","OBJECT_SEQUENCE","OBJECT_VIEW","OBJECT_MATVIEW",
      "OBJECT_FOREIGN_TABLE"] else
  if nodeType = "RenameStmt" then fieldIn value "renameType" localObjectTypes else
  if nodeType = "CommentStmt" ∨ nodeType = "GrantStmt" then fieldIn value "objtype" localObjectTypes else false

def classify (nodeType : String) (value : Json) : Verdict :=
  match clusterScopeKind nodeType value with
  | some kind => .clusterScope kind
  | none =>
    match routineSpec nodeType value with
    | some spec => .routine spec
    | none => if isLocalAllowlisted nodeType value then .local else .notAllowlisted

def splitWhitespace (cs : List Char) : List (List Char) := (cs.splitOnP isSpace).filter fun word => !word.isEmpty

def joinWords (found : List (List Char)) : List Char := [' '].intercalate found

section
variable [CaseMap]

def uppercased (cs : List Char) : List Char := (CaseMap.uppercase (String.ofList cs)).toList

def normalizeUpper (value : List Char) : List Char := uppercased (joinWords (splitWhitespace value))

-- The contents of the string literals, byte by byte. Each ends in a blank.
def literalBytes : Bool → List UInt8 → List UInt8
  | false,[] => []
  | true,[] => [0x20]
  | false,b :: bs => if b = 0x27 then literalBytes true bs else literalBytes false bs
  | true,[b] => if b = 0x27 then [0x20] else [b,0x20]
  | true,b :: next :: bs =>
    if b = 0x27 then
      if next = 0x27 then b :: literalBytes true bs else 0x20 :: literalBytes false (next :: bs)
    else b :: literalBytes true (next :: bs)

def staticLiterals (value : List Char) : List Char :=
  joinWords (splitWhitespace ((literalBytes false (value.flatMap String.utf8EncodeChar)).map fun b => Char.ofNat b.toNat))

def isSingleFormatCall (rawUpper : List Char) : Bool :=
  let stripped := ("PG_CATALOG.FORMAT(".toList.isPrefixOf? rawUpper).or ("FORMAT(".toList.isPrefixOf? rawUpper)
  stripped.any fun rest => ['\''].isPrefixOf (rest.dropWhile isSpace) && [')'].isSuffixOf rawUpper

def hasUnsupportedPlaceholder : List Char → Bool
  | [] => false
  | '%' :: spec :: rest => if spec ∈ ['I','L','S','%'] then hasUnsupportedPlaceholder rest else true
  | ['%'] => true
  | _ :: rest => hasUnsupportedPlaceholder rest

def safePercentS : List (List Char) :=
  ["FORMAT('REVOKEEXECUTEONFUNCTION%SFROMPUBLIC',TARGET.OID::REGPROCEDURE)".toList,
    "FORMAT('REVOKEUSAGEONTYPE%SFROMPUBLIC',TARGET.OID::REGTYPE)".toList,
    ("PG_CATALOG.FORMAT('REVOKE%s(%I)ONTABLE%I.%IFROM%s',V_COLUMN_GRANT.PRIVILEGE_TYPE,V_COLUMN_GRANT.ATTNAME,'PUBLIC'," ++
      "P_PARTITION_NAME,CASEWHENV_COLUMN_GRANT.GRANTEE=0THEN'PUBLIC'ELSEPG_CATALOG.QUOTE_IDENT(" ++
      "V_COLUMN_GRANT.ROLNAME)END)").toList]

def isSafePercentSExpression (rawUpper : List Char) : Bool :=
  let compact := (rawUpper.filter fun c => !isSpace c).map asciiLower
  safePercentS.any fun candidate => candidate.map asciiLower == compact

def isWordChar (c : Char) : Bool := asciiIsLower c || asciiIsUpper c || isDigit c || c == '_'

def words (upper : List Char) : List (List Char) :=
  (upper.splitOnP fun c => !isWordChar c).filter fun word => !word.isEmpty

def adjacent (first second : String) : List (List Char) → Bool
  | left :: right :: rest => left == first.toList && right == second.toList || adjacent first second (right :: rest)
  | _ => false

def pair (upper : List Char) (first second : String) : Bool := adjacent first second (words upper)

def sharedTarget (upper : List Char) (kind : String) : Bool := adjacent "ON" kind (words upper)

def firstWordAfter (upper : List Char) (word : String) : Option (List Char) :=
  ((words upper).idxOf? word.toList).bind fun i => (words upper)[i + 1]?

def startsWithWord (upper : List Char) (first second : String) : Bool :=
  (words upper)[0]? == some first.toList && (words upper)[1]? == some second.toList

def membership (upper : List Char) (action recipient : String) : Bool :=
  let tokens := words upper
  match tokens.idxOf? action.toList with
  | none => false
  | some actionAt =>
    match (tokens.drop actionAt).idxOf? recipient.toList with
    | none => false
    | some recipientRel => !((tokens.drop actionAt).take recipientRel).contains "ON".toList

def replaceAll (p by' : List Char) : Nat → List Char → List Char
  | 0,cs => cs
  | fuel + 1,cs =>
    match splitFirst p cs with
    | none => cs
    | some (before,after) => before ++ by' ++ replaceAll p by' fuel after

-- `CREATE USER MAPPING` is no `CREATE USER`.
def stripUserMapping (upper : List Char) : List Char :=
  ["USER MAPPING IF NOT EXISTS FOR","USER MAPPING IF EXISTS FOR","USER MAPPING FOR"].foldl
    (fun text flat => replaceAll flat.toList "USER_MAPPING_FOR".toList text.length text) upper

def isClusterScopedText (upper : List Char) : Bool :=
  let stripped := stripUserMapping upper
  (["ROLE","USER","GROUP","DATABASE","TABLESPACE","SUBSCRIPTION"].any fun kind =>
    pair stripped "CREATE" kind || pair stripped "ALTER" kind || pair stripped "DROP" kind) ||
  pair stripped "ALTER" "SYSTEM" ||
  (["DATABASE","TABLESPACE","PARAMETER","ROLE","SUBSCRIPTION"].any fun kind => sharedTarget stripped kind) ||
  pair stripped "OWNER" "TO" || pair stripped "DROP" "OWNED" || pair stripped "REASSIGN" "OWNED" ||
  membership stripped "GRANT" "TO" || membership stripped "REVOKE" "FROM"

def isAllowedRecoveredStatement (upper : List Char) : Bool :=
  ((words upper).head? == some "REVOKE".toList &&
    (firstWordAfter upper "ON").any fun target => ["TABLE".toList,"FUNCTION".toList,"TYPE".toList].contains target) ||
  startsWithWord upper "ALTER" "TABLE" || startsWithWord upper "DROP" "POLICY" || startsWithWord upper "CREATE" "POLICY" ||
  startsWithWord upper "CREATE" "TABLE" || startsWithWord upper "LOCK" "TABLE" || startsWithWord upper "DROP" "TABLE"

def dynamicSqlAllowed (expression : List Char) : Except String Unit :=
  let rawUpper := trimChars ((normalizeUpper expression).rdropWhile (· = ';'))
  let upper := uppercased (staticLiterals expression)
  if ';' ∈ upper then .error "dynamic SQL concatenates multiple statements" else
  if isClusterScopedText upper then .error "dynamic SQL reconstructs a cluster-scoped statement" else
  if (splitFirst ['|','|'] rawUpper).isSome || !isSingleFormatCall rawUpper then
    .error "dynamic SQL is not a single statically recoverable format() call" else
  if hasUnsupportedPlaceholder upper then .error "dynamic SQL uses a placeholder the gate cannot prove safe" else
  if (splitFirst ['%','S'] upper).isSome && !isSafePercentSExpression rawUpper then
    .error "dynamic SQL uses %S outside the known-safe revocations" else
  if isAllowedRecoveredStatement upper then .ok () else
    .error "dynamic SQL reconstructs a statement kind the gate does not allow"

end

end Scythe.ClusterScope
