import Scythe.Types

namespace Scythe
open Text

def unnamedColumn : String := "unknown"

-- Internal markers. No backend can resolve them; they must be turned back into
-- a user-facing error before an analyzed query is returned.
def ambiguousColumnMarker : String := "__ambiguous__:"
def unknownColumnMarker : String := "__unknown_col__:"
def unknownFunctionMarker : String := "__unknown_func__:"
def ambiguousFunctionMarker : String := "__ambiguous_func__:"
def untypeableRecordMarker : String := "__untypeable_record__:"
def untypeableCatalogRecordMarker : String := "__untypeable_catalog_record__:"
def untypeableRowMarker : String := "__untypeable_row__:"
def unresolvedExprMarker : String := "__unresolved_expr__:"
def nestedMarker : String := "__nested__"

-- The payload after the marker, up to the next wrapper delimiter.
def findMarkerPayload (neutralType marker : String) : Option String :=
  (splitFirst marker.toList neutralType.toList).map fun parts =>
    String.ofList (parts.2.takeWhile fun c => c ≠ '<' ∧ c ≠ '>')

def unresolvedTypeError (neutralType subject columnName : String) : Option ScytheError :=
  match findMarkerPayload neutralType ambiguousColumnMarker with
  | some name => some (.ambiguousColumn name)
  | none =>
  match findMarkerPayload neutralType unknownColumnMarker with
  | some name => some (.unknownColumn name)
  | none =>
  match findMarkerPayload neutralType unknownFunctionMarker with
  | some name => some (.unknownFunction name)
  | none =>
  match findMarkerPayload neutralType ambiguousFunctionMarker with
  | some name => some (.ambiguousFunction name)
  | none =>
  match findMarkerPayload neutralType untypeableRecordMarker with
  | some function => some (.untypeableRecord subject columnName function)
  | none =>
  match findMarkerPayload neutralType untypeableCatalogRecordMarker with
  | some function => some (.untypeableCatalogRecord subject columnName function)
  | none =>
  if contains neutralType untypeableRowMarker then some (.untypeableRowConstructor subject columnName) else
  if contains neutralType unresolvedExprMarker then some (.unresolvedExpressionType subject columnName) else
  none

def rejectUnresolvedColumns (columns : List AnalyzedColumn) : Except ScytheError Unit :=
  match columns.findSome? fun col => unresolvedTypeError col.neutralType "column" col.name with
  | some failure => .error failure
  | none => .ok ()

def rejectUnresolvedParams (params : List AnalyzedParam) : Except ScytheError Unit :=
  match params.findSome? fun param => unresolvedTypeError param.neutralType "parameter" param.name with
  | some failure => .error failure
  | none => .ok ()

-- Try the suffixes after `suffix` until one gives a name nobody has taken. As
-- many tries as there are taken names, and one more, always find one.
def freshSuffix (base : String) (taken : List String) : Nat → Nat → Nat
  | 0,suffix => suffix
  | tries + 1,suffix =>
    if s!"{base}_{suffix + 1}" ∈ taken then freshSuffix base taken tries (suffix + 1) else suffix + 1

def disambiguateFrom (all : List String) : List String → List (String × Nat) → List String → List String
  | _,_,[] => []
  | taken,suffixes,name :: names =>
    if all.count name < 2 then name :: disambiguateFrom all taken suffixes names else
    let suffix := freshSuffix name taken (taken.length + 1) ((suffixes.lookup name).getD 0)
    let renamed := s!"{name}_{suffix}"
    renamed :: disambiguateFrom all (renamed :: taken) ((name,suffix) :: suffixes) names

-- Every name that occurs more than once gets a numbered suffix.
def disambiguateDuplicateNames (names : List String) : List String := disambiguateFrom names names [] names

-- The renamed names go back to the columns they came from; unnamed columns
-- take no part.
def renameColumns : List AnalyzedColumn → List String → List AnalyzedColumn
  | [],_ => []
  | col :: cols,names =>
    if col.name = unnamedColumn then col :: renameColumns cols names else
    match names with
    | [] => col :: renameColumns cols []
    | name :: rest => {col with name:=name} :: renameColumns cols rest

def disambiguateColumns (columns : List AnalyzedColumn) : List AnalyzedColumn :=
  renameColumns columns
    (disambiguateDuplicateNames ((columns.filter fun col => col.name ≠ unnamedColumn).map (·.name)))

def valueIsString (vws : ValueWithSpan) : Bool :=
  match vws.value with
  | .singleQuotedString _ | .doubleQuotedString _ => true
  | _ => false

def valueIsBoolean (vws : ValueWithSpan) : Bool :=
  match vws.value with
  | .boolean _ => true
  | _ => false

def valueIsNull (vws : ValueWithSpan) : Bool :=
  match vws.value with
  | .null => true
  | _ => false

-- `$N` carries its own number; a bare `?` does not.
def parsePlaceholder (s : String) : Option Int :=
  if s = "?" then none else (stripPrefix s "$").bind parseI64

def isPositionalPlaceholder (s : String) : Bool := s = "?"

variable [CaseMap]

def tableFactorName : TableFactor → String
  | .table name _ _ _ => CaseMap.lowercase (objectNameToString name)
  | _ => ""

def assignmentTargetName : AssignmentTarget → String
  | .columnName name => CaseMap.lowercase (objectNameToString name)
  | .tuple names => ((names.head?).map fun name => CaseMap.lowercase (objectNameToString name)).getD ""

def Function.callName (function : Function) : String := CaseMap.lowercase (objectNameToString function.name)

mutual

def exprToName : Expr → String
  | .identifier ident => identToLower ident
  | .compoundIdentifier parts => (parts.getLast?.map fun ident => CaseMap.lowercase ident.value).getD "unknown"
  | .function function => function.callName
  | .cast _ inner _ => exprToName inner
  | .nested inner => exprToName inner
  | .unaryOp _ inner => exprToName inner
  | .case _ _ _ => "case"
  | .subquery _ => "subquery"
  | .value vws =>
    match vws.placeholder?.bind parsePlaceholder with
    | some pos => s!"p{pos}"
    | none => "unknown"
  | .binaryOp left _ _ => exprToName left
  | .compoundFieldAccess _ accessChain => lastAccessName accessChain
  | _ => "unknown"

def lastAccessName : List AccessExpr → String
  | [] => "unknown"
  | [last] => accessName last
  | _ :: rest => lastAccessName rest

def accessName : AccessExpr → String
  | .dot inner => exprToName inner
  | .subscript _ => "unknown"

end

-- A SELECT * from a single table names that table.
def detectSelectStarSource : Statement → Option String
  | .query query =>
    match query.body with
    | .select ⟨[.wildcard _ _],[⟨.table name _ _ _,[]⟩],_,_,_,_⟩ => some (CaseMap.lowercase (objectNameToString name))
    | _ => none
  | _ => none

def deriveParamNameFromComparison (colName : String) (colSide : Expr) (op : Option BinaryOperator) : String :=
  match colSide,op with
  | .function _,some .gt | .function _,some .gtEq => s!"min_{colName}"
  | .function _,some .lt | .function _,some .ltEq => s!"max_{colName}"
  | _,_ => colName

def exprToQualifiedName (e : Expr) : Option String × String :=
  match e with
  | .compoundIdentifier parts =>
    match parts.reverse with
    | name :: qualifier :: _ => (some (CaseMap.lowercase qualifier.value),CaseMap.lowercase name.value)
    | _ => (none,exprToName e)
  | _ => (none,exprToName e)

def sameColumnIdentity (a b : Expr) (scope : Scope) : Bool :=
  let (qualA,nameA) := exprToQualifiedName a
  let (qualB,nameB) := exprToQualifiedName b
  if nameA ≠ nameB then false else
  match qualA,qualB with
  | some qa,some qb => qa = qb
  | _,_ => scope.sources.length ≤ 1

def isNotNullGuard (condition result : Expr) (scope : Scope) : Bool :=
  match condition with
  | .isNotNull inner => sameColumnIdentity inner result scope
  | _ => false

def isLiteral : Expr → Bool
  | .value vws =>
    match vws.value with
    | .number _ | .singleQuotedString _ | .doubleQuotedString _ | .boolean _ => true
    | _ => false
  | _ => false

-- Oracle stores a zero-length string as NULL.
def valueIsNullInDialect (vws : ValueWithSpan) (dialect : SqlDialect) : Bool :=
  if dialect ≠ .oracle then false else
  match vws.value with
  | .singleQuotedString s | .nationalStringLiteral s => s = ""
  | _ => false

def isNonNullLiteral (e : Expr) (dialect : SqlDialect) : Bool :=
  isLiteral e && !(match e with
    | .value vws => valueIsNullInDialect vws dialect
    | _ => false)

def functionHasNullTreatment (function : Function) : Bool :=
  function.nullTreatment || match function.args with
    | .list _ clause _ => clause
    | _ => false

def pluralize (name : String) : String :=
  if endsWith name "s" ∨ endsWith name "x" ∨ endsWith name "sh" ∨ endsWith name "ch" then s!"{name}es" else
  if endsWith name "y" ∧ ¬endsWith name "ey" ∧ ¬endsWith name "ay" ∧ ¬endsWith name "oy" then
    s!"{String.ofList name.toList.dropLast}ies"
  else s!"{name}s"

def isIntegerType (t : String) : Bool := t ∈ ["int16","int32","int64"]
def isFloatType (t : String) : Bool := t ∈ ["float32","float64"]

def sumResultType (neutral : String) : String :=
  if isIntegerType neutral then (if neutral = "int64" then "decimal" else "int64") else
  if isFloatType neutral then neutral else "decimal"

def avgResultType (neutral : String) : String := if isFloatType neutral then "float64" else "decimal"

def isComparableTypes (a b : String) : Bool :=
  let numeric := ["int16","int32","int64","float32","float64","decimal"]
  let temporal := ["date","datetime","datetime_tz","time","time_tz"]
  (a ∈ numeric && b ∈ numeric) || (a = "string" && b = "string") || (a ∈ temporal && b ∈ temporal) ||
    (startsWith a "enum::" && b = "string") || (startsWith b "enum::" && a = "string") ||
    (startsWith a "enum::" && startsWith b "enum::")

def neutralToSqlLabel (neutral : String) : String :=
  (List.lookup neutral [("int16","smallint"),("int32","integer"),("int64","bigint"),("float32","real"),
    ("float64","double precision"),("decimal","numeric"),("string","text"),("bool","boolean"),("bytes","bytea"),
    ("date","date"),("time","time"),("time_tz","timetz"),("datetime","timestamp"),("datetime_tz","timestamptz"),
    ("interval","interval"),("json","json"),("uuid","uuid")]).getD neutral

def isAggregateFunctionName (name : String) : Bool :=
  name ∈ ["count","sum","avg","min","max","string_agg","array_agg","bool_and","bool_or","every",
    "json_agg","jsonb_agg","json_object_agg","jsonb_object_agg"]

def unwrapNested : Expr → Expr
  | .nested inner => unwrapNested inner
  | e => e

def isAggregateCall (e : Expr) : Bool :=
  match unwrapNested e with
  | .function f => f.overWindow.isNone && isAggregateFunctionName f.callName
  | _ => false

-- An ungrouped SELECT of a single aggregate returns exactly one row.
def isSingleRowAggregateQuery (query : Query) : Bool :=
  match query.body with
  | .select ⟨[.unnamedExpr e],_,_,.expressions [],none,_⟩ => isAggregateCall e
  | .select ⟨[.exprWithAlias e _],_,_,.expressions [],none,_⟩ => isAggregateCall e
  | _ => false

def findNestedPlaceholderId (neutralType : String) : Option Nat :=
  (splitFirst nestedMarker.toList neutralType.toList).bind fun parts =>
    parseUnsigned 32 (String.ofList (parts.2.takeWhile isDigit))

def intRank (t : String) : Option Nat := List.lookup t [("int16",0),("int32",1),("int64",2)]
def floatRank (t : String) : Option Nat := List.lookup t [("float32",0),("float64",1)]
def isDecimal (t : String) : Bool := t = "decimal"

def widenType (a b : String) : String :=
  if a = b then a else
  if a = "unknown" then b else
  if b = "unknown" then a else
  match intRank a,intRank b with
  | some ra,some rb => if ra ≥ rb then a else b
  | _,_ =>
  match floatRank a,floatRank b with
  | some ra,some rb => if ra ≥ rb then a else b
  | _,_ =>
  if (isDecimal a ∧ (intRank b).isSome) ∨ ((intRank a).isSome ∧ isDecimal b) then "decimal" else
  if ((intRank a).isSome ∨ isDecimal a) ∧ (floatRank b).isSome then "float64" else
  if (floatRank a).isSome ∧ ((intRank b).isSome ∨ isDecimal b) then "float64" else
  a

def widenNeutralType (a b : String) : String := widenType a b

def widenTypeInfo (a b : TypeInfo) : TypeInfo :=
  .new (widenNeutralType a.neutralType b.neutralType) (a.nullable || b.nullable)

def literalNumberNeutralType (text : String) : String :=
  if text.toList.any fun c => c = 'e' ∨ c = 'E' then "float64" else
  if contains text "." then "decimal" else
  match parseI64 text with
  | some v => if -2147483648 ≤ v ∧ v ≤ 2147483647 then "int32" else "int64"
  | none => "decimal"

def extractResultType : SqlDialect → String
  | .mySQL => "int64"
  | .postgreSQL | .oracle | .snowflake => "decimal"
  | .sqLite | .msSql => "float64"

def roundResultType (input : String) : String := if isFloatType input then input else "decimal"

def functionArgExprs (args : List FunctionArg) : List Expr :=
  args.filterMap fun arg => match arg with
    | .unnamed (.expr e) | .named _ (.expr e) => some e
    | _ => none

-- The argument expressions of a call; wildcards are dropped.
def getFunctionArgs (function : Function) : List Expr :=
  match function.args with
  | .list args _ _ => functionArgExprs args
  | _ => []

end Scythe
