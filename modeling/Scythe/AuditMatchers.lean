import Scythe.MatcherArgs
import Scythe.SyntaxParts

-- The matchers of the audit that read arguments.
namespace Scythe.MatcherArgs
open Text

section Statements

-- The parts of a statement that the matchers look at.
inductive ObjectType where
  | table
  | database
  | schema
  | other
  deriving DecidableEq

inductive AddedConstraint where
  | unique (name : Option Ident)
  | primaryKey (name : Option Ident)
  | other

inductive AlterOperation where
  | addConstraint (constraint : AddedConstraint)
  | dropColumn (columnNames : List Ident)
  | addColumn (name : Ident) (dataType : DataType)
  | other

inductive AuthorizationKind where
  | default
  | user (name : Ident)

inductive SetStatement where
  | setRole (roleName : Option Ident)
  | setSessionAuthorization (kind : AuthorizationKind)
  | other

inductive ResetTarget where
  | all
  | configurationParameter (name : ObjectName)

inductive RoleOption where
  | superUser (value : Bool)
  | createDB (value : Bool)
  | createRole (value : Bool)
  | replication (value : Bool)
  | bypassRLS (value : Bool)
  | other
  deriving DecidableEq

structure CreateRole where
  names : List ObjectName
  superuser : Option Bool
  createDb : Option Bool
  createRole : Option Bool
  replication : Option Bool
  bypassrls : Option Bool

structure CreatePolicy where
  name : Ident
  tableName : ObjectName
  usingExpr : Option Expr
  withCheck : Option Expr

inductive AuditStatement where
  | query (query : Query)
  | insert (insert : Insert)
  | update (update : Update)
  | delete (delete : Delete)
  | createPolicy (policy : CreatePolicy)
  | createTable (name : ObjectName) (columns : List (Ident × DataType))
  | alterTable (name : ObjectName) (operations : List AlterOperation)
  | drop (objectType : ObjectType) (names : List ObjectName)
  | set (set : SetStatement)
  | reset (reset : ResetTarget)
  | grant (allPrivileges : Bool) (toPublic : List Bool)
  | createRole (role : CreateRole)
  | alterRole (name : Ident) (options : Option (List RoleOption))
  | other

-- What is known to stand at the top of a statement.
def knownRoots : AuditStatement → Option (List SyntaxNode)
  | .query q => some [.query q]
  | .insert i => some [.statement (.insert i)]
  | .update u => some [.statement (.update u)]
  | .delete d => some [.statement (.delete d)]
  | .createPolicy policy => some ((policy.usingExpr.toList ++ policy.withCheck.toList).map .expr)
  | _ => none

-- What a visit of a statement comes to.
inductive Visited where
  | relation (name : ObjectName)
  | expr (expr : Expr)

def selectOf (items : List SelectItem) (sources : List TableWithJoins) : Query :=
  ⟨none,.select ⟨items,sources,none,.expressions [],none,[]⟩,[],none,[]⟩

-- The parser library: it prints names and types, and leads a visitor through a
-- statement. A type of one plain name prints as that name, and the expressions of a
-- projection are visited.
structure SqlLibrary where
  name : ObjectName → String
  ident : Ident → String
  dataType : DataType → String
  visited : AuditStatement → List Visited
  prints_custom : ∀ text,dataType (.custom [.identifier ⟨text,false⟩] []) = text
  visits_projection : ∀ expr,.expr expr ∈ visited (.query (selectOf [.unnamedExpr expr] []))

structure LintContext where
  stmt : AuditStatement
  catalog : Catalog

structure MatcherHit where
  bindings : AHashMap String

def MatcherHit.of (bindings : List (String × String)) : MatcherHit :=
  ⟨bindings.foldl (fun map binding => map.insert binding.1 binding.2) ∅⟩

end Statements

section Readers

-- The arguments that are compared without their case.
def readStringList (args : TomlTable) (key : String) : List String :=
  ((stringValues args key .list).getD []).map asciiLowercase

-- One matcher reads its kinds as they are.
def readKinds (args : TomlTable) : List String := (stringValues args "kinds" .list).getD []

def readText (args : TomlTable) (key : String) : String := ((args.lookup key).bind TomlValue.asStr).getD ""

def eqIgnoreAsciiCase (a b : String) : Bool := asciiLowercase a = asciiLowercase b

def lastNameSegment (name : ObjectName) : Option String :=
  name.getLast?.bind fun part =>
    match part with
    | .identifier ident => some ident.value
    | .function => none

end Readers

variable (library : SqlLibrary)

section Functions

def inSet (functions : List String) (name : ObjectName) : Option String :=
  (lastNameSegment name).filter fun last => functions.any fun known => eqIgnoreAsciiCase known last

def collectName (functions : List String) : Visited → Option String
  | .relation name => inSet functions name
  | .expr (.function function) => inSet functions function.name
  | .expr _ => none

def matchFunctionNameInSet (ctx : LintContext) (args : TomlTable) : List MatcherHit :=
  let functions := readStringList args "functions"
  if functions.isEmpty then []
  else ((library.visited ctx.stmt).filterMap (collectName functions)).map fun name => .of [("func",name)]

def sensitive (patterns : List String) (value : String) : Bool :=
  patterns.any fun pattern => contains (asciiLowercase value) pattern

mutual

def extractSensitiveColumn (patterns : List String) : Expr → Option String
  | .identifier ident => if sensitive patterns ident.value then some ident.value else none
  | .compoundIdentifier parts =>
    if parts.getLast?.any fun last => sensitive patterns last.value then some (join "." (parts.map (·.value))) else none
  | .nested inner => extractSensitiveColumn patterns inner
  | .cast _ inner _ => extractSensitiveColumn patterns inner
  | .binaryOp left _ right => (extractSensitiveColumn patterns left).or (extractSensitiveColumn patterns right)
  | .function function => extractFunction patterns function
  | _ => none

def extractFunction (patterns : List String) : Function → Option String
  | ⟨_,args,_,_,_,_⟩ => extractArguments patterns args

def extractArguments (patterns : List String) : FunctionArguments → Option String
  | .list args _ _ => extractArgs patterns args
  | _ => none

def extractArgs (patterns : List String) : List FunctionArg → Option String
  | [] => none
  | arg :: args => (extractArg patterns arg).or (extractArgs patterns args)

def extractArg (patterns : List String) : FunctionArg → Option String
  | .named _ arg => extractArgExpr patterns arg
  | .unnamed arg => extractArgExpr patterns arg
  | .exprNamed _ _ => none

def extractArgExpr (patterns : List String) : FunctionArgExpr → Option String
  | .expr expr => extractSensitiveColumn patterns expr
  | _ => none

end

def hashedColumns (functions patterns : List String) : Visited → List MatcherHit
  | .expr (.function function) =>
    match inSet functions function.name with
    | none => []
    | some last =>
      match function.args with
      | .list args _ _ =>
        (args.filterMap (extractArg patterns)).map fun column => .of [("func",asciiLowercase last),("column",column)]
      | _ => []
  | _ => []

def matchWeakHashOverSensitiveColumn (ctx : LintContext) (args : TomlTable) : List MatcherHit :=
  let functions := readStringList args "functions"
  let columnPatterns := readStringList args "column_patterns"
  if functions.isEmpty || columnPatterns.isEmpty then []
  else (library.visited ctx.stmt).flatMap (hashedColumns functions columnPatterns)

end Functions

section Wildcards

def isWildcard : SelectItem → Bool
  | .wildcard _ _ | .qualifiedWildcard _ _ _ => true
  | _ => false

variable [CaseMap]

-- The table under its name as written, or under the last segment of it.
def tableOf (catalog : Catalog) (name : ObjectName) : Option Table :=
  (catalog.getTable (library.name name)).or ((lastNameSegment name).bind catalog.getTable)

def checkTableFactor (patterns : List String) (catalog : Catalog) : TableFactor → List MatcherHit
  | .table name _ _ _ =>
    match tableOf library catalog name with
    | none => []
    | some table =>
      (table.columns.findSome? fun column =>
        (patterns.find? fun pattern => contains (asciiLowercase column.name) pattern).map fun pattern =>
          .of [("table",library.name name),("column",column.name),("pattern",pattern)]).toList
  | _ => []

def checkTableWithJoins (patterns : List String) (catalog : Catalog) (tables : TableWithJoins) : List MatcherHit :=
  checkTableFactor library patterns catalog tables.relation ++
    tables.joins.flatMap fun joined => checkTableFactor library patterns catalog joined.relation

mutual

def checkSetExpr (patterns : List String) (catalog : Catalog) : SetExpr → List MatcherHit
  | .select select =>
    if select.projection.any isWildcard then select.sources.flatMap (checkTableWithJoins library patterns catalog) else []
  | .query query => checkQuery patterns catalog query
  | .setOperation _ left right => checkSetExpr patterns catalog left ++ checkSetExpr patterns catalog right
  | _ => []

def checkQuery (patterns : List String) (catalog : Catalog) : Query → List MatcherHit
  | ⟨_,body,_,_,_⟩ => checkSetExpr patterns catalog body

end

def matchSelectStarOverPiiColumns (ctx : LintContext) (args : TomlTable) : List MatcherHit :=
  let columnPatterns := readStringList args "column_patterns"
  if columnPatterns.isEmpty then []
  else
    match ctx.stmt with
    | .query query => checkQuery library columnPatterns ctx.catalog query
    | _ => []

end Wildcards

section Tables

def isDisallowed (ty : String) (disallowed : List String) : Bool :=
  disallowed.any fun d => ty = d || startsWith ty (d ++ "(")

def disallowedColumn (table suggested : String) (disallowed : List String) (name : Ident) (dataType : DataType) :
    Option MatcherHit :=
  let ty := asciiLowercase (library.dataType dataType)
  if isDisallowed ty disallowed then
    some (.of [("table",table),("column",name.value),("actual_type",ty),("suggested_type",suggested)])
  else none

def matchColumnTypeDisallowed (ctx : LintContext) (args : TomlTable) : List MatcherHit :=
  let disallowed := readStringList args "disallowed"
  if disallowed.isEmpty then []
  else
    let suggested := readText args "suggested"
    match ctx.stmt with
    | .createTable name columns =>
      columns.filterMap fun column => disallowedColumn library (library.name name) suggested disallowed column.1 column.2
    | .alterTable name operations =>
      operations.filterMap fun operation =>
        match operation with
        | .addColumn column dataType => disallowedColumn library (library.name name) suggested disallowed column dataType
        | _ => none
    | _ => []

def matchDropStatement (ctx : LintContext) (args : TomlTable) : List MatcherHit :=
  let kinds := readStringList args "kinds"
  if kinds.isEmpty then []
  else
    match ctx.stmt with
    | .drop .table names => if kinds.contains "table" then names.map fun name => .of [("table",library.name name)] else []
    | .drop .database names =>
      if kinds.contains "database" then names.map fun name => .of [("name",library.name name),("kind","database")] else []
    | .drop .schema names =>
      if kinds.contains "schema" then names.map fun name => .of [("name",library.name name),("kind","schema")] else []
    | .alterTable name operations =>
      if kinds.contains "column" then
        operations.flatMap fun operation =>
          match operation with
          | .dropColumn columnNames =>
            columnNames.map fun column => .of [("table",library.name name),("column",column.value)]
          | _ => []
      else []
    | _ => []

def addedConstraint (wantUnique wantPk : Bool) : AlterOperation → Option (String × Option String)
  | .addConstraint (.unique name) => if wantUnique then some ("unique",name.map (·.value)) else none
  | .addConstraint (.primaryKey name) => if wantPk then some ("primary key",name.map (·.value)) else none
  | _ => none

def matchAddConstraintWithoutUsingIndex (ctx : LintContext) (args : TomlTable) : List MatcherHit :=
  match ctx.stmt with
  | .alterTable name operations =>
    let kinds := readKinds args
    let wantUnique := kinds.contains "unique"
    let wantPk := kinds.contains "primary_key"
    if !wantUnique && !wantPk then []
    else
      (operations.filterMap (addedConstraint wantUnique wantPk)).map fun added =>
        .of ([("table",library.name name),("constraint_kind",added.1)] ++
          added.2.toList.map fun constraint => ("constraint_name",constraint))
  | _ => []

end Tables

section Sessions

def matchSet (kinds : List String) : SetStatement → List MatcherHit
  | .setRole roleName =>
    if kinds.contains "set_role" then
      [.of [("op","SET ROLE"),("target",(roleName.map (·.value)).getD "NONE")]]
    else []
  | .setSessionAuthorization kind =>
    if kinds.contains "set_session_authorization" then
      let target := match kind with
        | .default => "DEFAULT"
        | .user name => library.ident name
      [.of [("op","SET SESSION AUTHORIZATION"),("target",target)]]
    else []
  | .other => []

def matchResetRole : ResetTarget → List MatcherHit
  | .configurationParameter name =>
    if eqIgnoreAsciiCase ((lastNameSegment name).getD "") "role" then
      [.of [("op","RESET ROLE"),("target","to default")]]
    else []
  | .all => []

def matchSessionMutation (ctx : LintContext) (args : TomlTable) : List MatcherHit :=
  let kinds := readStringList args "kinds"
  if kinds.isEmpty then []
  else
    match ctx.stmt with
    | .set set => matchSet library kinds set
    | .reset reset => if kinds.contains "reset_role" then matchResetRole reset else []
    | _ => []

def matchGranteeIncludes (ctx : LintContext) (args : TomlTable) : List MatcherHit :=
  if readText args "grantee" = "public" then
    match ctx.stmt with
    | .grant _ toPublic => if toPublic.any id then [.of []] else []
    | _ => []
  else []

def matchGrantKind (ctx : LintContext) (args : TomlTable) : List MatcherHit :=
  if readText args "kind" = "all" then
    match ctx.stmt with
    | .grant allPrivileges _ => if allPrivileges then [.of []] else []
    | _ => []
  else []

def normalizeAttribute (s : String) : Option String :=
  if recognizedAttributes.contains (asciiLowercase s) then some (asciiLowercase s) else none

-- A list that yields nothing does not shadow the single attribute.
def readWantedAttributes (args : TomlTable) : List String :=
  let fromArray := ((stringValues args "attributes" .list).getD []).filterMap normalizeAttribute
  if fromArray.isEmpty then (((args.lookup "attribute").bind TomlValue.asStr).bind normalizeAttribute).toList else fromArray

def attributeSetOnCreateRole (role : CreateRole) (attr : String) : Bool :=
  if attr = "superuser" then role.superuser = some true
  else if attr = "createdb" then role.createDb = some true
  else if attr = "createrole" then role.createRole = some true
  else if attr = "replication" then role.replication = some true
  else if attr = "bypassrls" then role.bypassrls = some true
  else false

def attributeSetInOptions (options : List RoleOption) (attr : String) : Bool :=
  options.any fun option =>
    (attr = "superuser" && option = .superUser true) || (attr = "createdb" && option = .createDB true) ||
      (attr = "createrole" && option = .createRole true) || (attr = "replication" && option = .replication true) ||
      (attr = "bypassrls" && option = .bypassRLS true)

def matchRoleWithAttribute (ctx : LintContext) (args : TomlTable) : List MatcherHit :=
  let wanted := readWantedAttributes args
  if wanted.isEmpty then []
  else
    match ctx.stmt with
    | .createRole role =>
      let name := (role.names.head?.map library.name).getD "<unknown>"
      (wanted.filter (attributeSetOnCreateRole role)).map fun attr => .of [("role",name),("attribute",attr)]
    | .alterRole name (some options) =>
      (wanted.filter (attributeSetInOptions options)).map fun attr =>
        .of [("role",library.ident name),("attribute",attr)]
    | _ => []

end Sessions

end Scythe.MatcherArgs
