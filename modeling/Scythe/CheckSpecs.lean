import Scythe.Migrate
import Scythe.Catalog

-- Checks of a live database: their validation, the rows they give, and their suppression.
namespace Scythe.CheckSpecs
open Text Migrate

section Specs

structure CheckSpec where
  id : String
  name : String
  engines : List String
  description : String
  message : String
  sql : String
  objectBinding : Option String
  schemaBinding : Option String
  deriving DecidableEq,Repr

inductive SpecValidationError where
  | messageBindingMissing (checkId binding : String) (available : List String)
  | sqlParseError (checkId reason : String)
  | sqlNotSelect (checkId : String)
  | suppressionBindingMissing (checkId field binding : String) (available : List String)
  | missingObjectBinding (checkId : String)
  deriving DecidableEq,Repr

inductive ParserDialect where
  | mySql
  | postgreSql
  deriving DecidableEq,Repr

-- The parser library, which says why it cannot read a text.
class SqlParser where
  parseSql : ParserDialect → String → Except String (List Statement)

inductive Piece where
  | text (c : Char)
  | binding (name : List Char)
  deriving DecidableEq,Repr

section Messages
variable [WordClasses]

-- `\x7b(\w+)\x7d` behind its opening brace.
def placeholderName (cs : List Char) : Option (List Char) :=
  match cs.takeWhile WordClasses.isWord,cs.dropWhile WordClasses.isWord with
  | c :: name,'\x7d' :: _ => some (c :: name)
  | _,_ => none

-- A match is gone over before the next one is looked for.
def pieces : Nat → List Char → List Piece
  | _,[] => []
  | skip + 1,_ :: cs => pieces skip cs
  | 0,c :: cs =>
    if c = '\x7b' then
      match placeholderName cs with
      | some name => .binding name :: pieces (name.length + 1) cs
      | none => .text c :: pieces 0 cs
    else .text c :: pieces 0 cs

def Piece.name : Piece → Option String
  | .text _ => none
  | .binding name => some (String.ofList name)

def extractMessagePlaceholders (message : String) : List String := (pieces 0 message.toList).filterMap Piece.name

end Messages

def lastIdent (name : ObjectName) : Option Ident :=
  name.getLast?.bind fun part =>
    match part with
    | .identifier ident => some ident
    | .function => none

-- Best-effort column name extraction from an expression.
def exprToName : Expr → String
  | .identifier ident => asciiLowercase ident.value
  | .compoundIdentifier parts => (parts.getLast?.map fun ident => asciiLowercase ident.value).getD ""
  | .function function => ((lastIdent function.name).map fun ident => asciiLowercase ident.value).getD ""
  | .cast _ expr _ => exprToName expr
  | _ => ""

-- Items whose columns cannot be told without the database.
def unknownColumns : SelectItem → Bool
  | .wildcard _ _ | .qualifiedWildcard _ _ _ | .exprWithAliases _ _ => true
  | _ => false

def itemName : SelectItem → String
  | .exprWithAlias _ name => asciiLowercase name.value
  | .unnamedExpr expr => exprToName expr
  | _ => ""

def selectProjection (select : Select) : Option (List String) :=
  if select.projection.any unknownColumns then none
  else some ((select.projection.map itemName).filter fun name => name ≠ "")

section Validation
variable [WordClasses] [SqlParser]

def sqlSelect (spec : CheckSpec) : Except SpecValidationError (Option Select) :=
  let dialect := if spec.engines.any fun engine => engine = "mysql" then .mySql else .postgreSql
  match SqlParser.parseSql dialect spec.sql with
  | .error reason => .error (.sqlParseError spec.id reason)
  | .ok [] => .error (.sqlParseError spec.id "empty SQL body")
  | .ok (.query query :: _) =>
    match query.body with
    | .select select => .ok (some select)
    | _ => .ok none
  | .ok (_ :: _) => .error (.sqlNotSelect spec.id)

def sqlProjection (spec : CheckSpec) : Except SpecValidationError (Option (List String)) :=
  (sqlSelect spec).map fun select => select.bind selectProjection

def validateMessageBindings (spec : CheckSpec) : Except SpecValidationError Unit :=
  match sqlProjection spec with
  | .error error => .error error
  | .ok none => .ok ()
  | .ok (some projection) =>
    match (extractMessagePlaceholders spec.message).find? fun ph => !projection.contains (asciiLowercase ph) with
    | some ph => .error (.messageBindingMissing spec.id ph projection)
    | none => .ok ()

def declaredBindings (spec : CheckSpec) : List (String × String) :=
  (spec.objectBinding.toList.map fun binding => ("object_binding",binding)) ++
    spec.schemaBinding.toList.map fun binding => ("schema_binding",binding)

def validateSuppressionBindings (spec : CheckSpec) (requireObjectBinding : Bool) : Except SpecValidationError Unit :=
  if requireObjectBinding && spec.objectBinding.isNone then .error (.missingObjectBinding spec.id)
  else if spec.objectBinding.isNone && spec.schemaBinding.isNone then .ok ()
  else
    match sqlProjection spec with
    | .error error => .error error
    | .ok none => .ok ()
    | .ok (some projection) =>
      match (declaredBindings spec).find? fun declared => !projection.contains (asciiLowercase declared.2) with
      | some declared => .error (.suppressionBindingMissing spec.id declared.1 declared.2 projection)
      | none => .ok ()

end Validation

end Specs

section Rows

-- A column of a result row, with the text that the first of the decoders that takes it gives.
structure ResultColumn where
  name : String
  pgType : String
  decoded : Option String
  deriving DecidableEq,Repr

structure RowBindings where
  values : AHashMap String
  unrenderable : AHashMap String

-- A row is asked by name, and the first column of that name answers.
def tryGet (row : List ResultColumn) (name : String) : Option String :=
  (row.find? fun col => col.name = name).bind (·.decoded)

def bindColumn (row : List ResultColumn) (bindings : RowBindings) (col : ResultColumn) : RowBindings :=
  match tryGet row col.name with
  | some v => { bindings with values := bindings.values.insert col.name v }
  | none => { bindings with unrenderable := bindings.unrenderable.insert col.name col.pgType }

def rowToMap (row : List ResultColumn) : RowBindings := row.foldl (bindColumn row) ⟨∅,∅⟩

inductive InspectError where
  | unrenderableBinding (checkId binding engine typeName : String)
  | messageBindingMissing (checkId binding : String)
  deriving DecidableEq,Repr

def renderPieces (bindings : RowBindings) (checkId : String) : List Piece → Except InspectError (List Char)
  | [] => .ok []
  | .text c :: ps => (renderPieces bindings checkId ps).map (c :: ·)
  | .binding name :: ps =>
    match bindings.values.lookup (String.ofList name) with
    | some value => (renderPieces bindings checkId ps).map (value.toList ++ ·)
    | none =>
      match bindings.unrenderable.lookup (String.ofList name) with
      | some typeName => .error (.unrenderableBinding checkId (String.ofList name) "postgres" typeName)
      | none => .error (.messageBindingMissing checkId (String.ofList name))

structure Finding where
  ruleId : String
  ruleName : String
  ruleDescription : String
  message : String
  deriving DecidableEq,Repr

variable [WordClasses]

def renderMessage (template : String) (bindings : RowBindings) (checkId : String) : Except InspectError String :=
  (renderPieces bindings checkId (pieces 0 template.toList)).map String.ofList

def findingOf (spec : CheckSpec) (row : List ResultColumn) : Except InspectError (Finding × AHashMap String) :=
  (renderMessage spec.message (rowToMap row) spec.id).map fun message =>
    (⟨spec.id,spec.name,spec.description,message⟩,(rowToMap row).values)

def runCheckWithBindings (spec : CheckSpec) (rows : List (List ResultColumn)) :
    Except InspectError (List (Finding × AHashMap String)) :=
  rows.mapM (findingOf spec)

end Rows

section Suppression

structure SuppressionRule where
  rule : String
  schema : Option String
  object : Option String
  deriving DecidableEq,Repr

structure RuleBindings where
  schemaColumn : Option String
  objectColumn : Option String
  deriving DecidableEq,Repr

structure SuppressionEngine where
  rules : List SuppressionRule
  bindings : AHashMap RuleBindings

def SuppressionEngine.new (rules : List SuppressionRule) : SuppressionEngine := ⟨rules,∅⟩

def SuppressionEngine.bindToRegistry (engine : SuppressionEngine) (registry : List CheckSpec) : SuppressionEngine :=
  { engine with bindings := registry.foldl (fun map spec => map.insert spec.id ⟨spec.schemaBinding,spec.objectBinding⟩) ∅ }

def firstBySortedKey (bindings : AHashMap String) (predicate : String → Bool) : Option String :=
  (smallest (bindings.keys.filter predicate)).bind bindings.lookup

def schemaValue (declaredColumn : Option String) (bindings : AHashMap String) : Option String :=
  match declaredColumn with
  | some column => bindings.lookup column
  | none => firstBySortedKey bindings fun key => contains key "schema"

def objectColumnFallbackOrder : List String :=
  ["object_name","table_name","view_name","sequence_name","function_name","extension_name","index_name",
    "constraint_name","policy_name","column_name","parent_table","name"]

def objectValue (declaredColumn : Option String) (bindings : AHashMap String) : Option String :=
  match declaredColumn with
  | some column => bindings.lookup column
  | none =>
    match objectColumnFallbackOrder.findSome? bindings.lookup with
    | some value => some value
    | none => firstBySortedKey bindings fun key => endsWith key "_name" && !contains key "schema"

-- What a rule leaves open, it takes as it is.
def expects (expected found : Option String) : Bool :=
  match expected with
  | none => true
  | some value => found = some value

def SuppressionEngine.isSuppressed (engine : SuppressionEngine) (finding : Finding) (bindings : AHashMap String) : Bool :=
  let declared := engine.bindings.lookup finding.ruleId
  engine.rules.any fun rule =>
    rule.rule = finding.ruleId &&
      (expects rule.schema (schemaValue (declared.bind (·.schemaColumn)) bindings) &&
        expects rule.object (objectValue (declared.bind (·.objectColumn)) bindings))

end Suppression

section Server

-- The server keeps 63 bytes of a name, as whole characters.
def clip : Nat → List Char → List Char
  | _,[] => []
  | limit,c :: cs => if c.utf8Size ≤ limit then c :: clip (limit - c.utf8Size) cs else []

def reportedIdent (ident : Ident) : String :=
  String.ofList (clip 63 (if ident.quoted then ident.value else asciiLowercase ident.value).toList)

-- Expressions after which the server names a column, also under a cast.
def isNamed : Expr → Bool
  | .identifier _ | .compoundIdentifier _ | .function _ => true
  | .nested expr | .cast _ expr _ => isNamed expr
  | _ => false

-- How the server names a column without an alias. The names it gives to expressions of
-- another kind are its own.
def reportedExpr (naming : Expr → String) : Expr → String
  | .identifier ident => reportedIdent ident
  | .compoundIdentifier parts => (parts.getLast?.map reportedIdent).getD (naming (.compoundIdentifier parts))
  | .function function => ((lastIdent function.name).map reportedIdent).getD (naming (.function function))
  | .nested expr => reportedExpr naming expr
  | .cast kind expr dataType => if isNamed expr then reportedExpr naming expr else naming (.cast kind expr dataType)
  | expr => naming expr

def reportedName (naming : Expr → String) : SelectItem → Option String
  | .exprWithAlias _ name => some (reportedIdent name)
  | .unnamedExpr expr => some (reportedExpr naming expr)
  | _ => none

-- A row of the result of a SELECT whose columns the server names.
structure ResultRow (naming : Expr → String) (select : Select) where
  columns : List ResultColumn
  named : columns.map (·.name) = select.projection.filterMap (reportedName naming)

end Server

end Scythe.CheckSpecs
