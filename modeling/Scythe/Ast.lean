import Scythe.Errors

namespace Scythe

-- A source region, from the line and column of its first character to those
-- after its last. Only nodes that no parser produced carry the empty one.
structure Location where
  line : Nat
  column : Nat
  deriving DecidableEq,Repr

structure Span where
  start : Location
  stop : Location
  deriving DecidableEq,Repr

def Span.empty : Span := ⟨⟨0,0⟩,⟨0,0⟩⟩

structure Ident where
  value : String
  quoted : Bool
  deriving DecidableEq,Repr

inductive ObjectNamePart where
  | identifier (ident : Ident)
  | function
  deriving DecidableEq,Repr

abbrev ObjectName := List ObjectNamePart

inductive Value where
  | number (text : String)
  | singleQuotedString (text : String)
  | doubleQuotedString (text : String)
  | nationalStringLiteral (text : String)
  | escapedStringLiteral (text : String)
  | dollarQuotedString (text : String)
  | boolean (value : Bool)
  | null
  | placeholder (token : String)
  | other
  deriving DecidableEq,Repr

structure ValueWithSpan where
  value : Value
  span : Span
  deriving DecidableEq,Repr

inductive ExactNumberInfo where
  | none
  | precision (p : Nat)
  | precisionAndScale (p : Nat) (s : Int)
  deriving DecidableEq,Repr

inductive CharacterLength where
  | integerLength (length : Nat)
  | max
  deriving DecidableEq,Repr

inductive TimezoneInfo where
  | none
  | withTimeZone
  | withoutTimeZone
  | tz
  deriving DecidableEq,Repr

inductive DataType where
  | int | int4 | integer | smallInt | int2 | tinyInt | mediumInt | bigInt | int8
  | tinyIntUnsigned | int2Unsigned | smallIntUnsigned | mediumIntUnsigned
  | intUnsigned | int4Unsigned | integerUnsigned | bigIntUnsigned | int8Unsigned
  | real | float4 | doublePrecision | float8 | float (info : ExactNumberInfo)
  | realUnsigned | floatUnsigned (info : ExactNumberInfo) | doubleUnsigned | doublePrecisionUnsigned
  | decimalUnsigned (info : ExactNumberInfo) | decUnsigned (info : ExactNumberInfo)
  | numeric (info : ExactNumberInfo) | decimal (info : ExactNumberInfo) | dec (info : ExactNumberInfo)
  | varchar (length : Option CharacterLength) | charVarying (length : Option CharacterLength)
  | characterVarying (length : Option CharacterLength) | nvarchar (length : Option CharacterLength)
  | char (length : Option CharacterLength) | character (length : Option CharacterLength)
  | text | tinyText | mediumText | longText | clob | set | enum (variants : List String)
  | bool | boolean | bytea | blob | tinyBlob | mediumBlob | longBlob | binary
  | varbinary (length : Option CharacterLength) | uuid | date | datetime
  | time (precision : Option Nat) (zone : TimezoneInfo) | timestamp (precision : Option Nat) (zone : TimezoneInfo)
  | interval | json | jsonb | bit (width : Option Nat) | bitVarying | varBit
  | array (element : Option DataType)
  | custom (name : ObjectName) (tokens : List String)
  | other (display : String)

inductive CastKind where
  | cast
  | doubleColon
  | tryCast
  | safeCast
  deriving DecidableEq,Repr

inductive BinaryOperator where
  | plus | minus | multiply | divide | modulo | stringConcat
  | gt | lt | gtEq | ltEq | eq | notEq
  | and | or
  | arrow | longArrow | hashArrow | hashLongArrow
  | other
  deriving DecidableEq,Repr

inductive UnaryOperator where
  | plus
  | minus
  | not
  | other
  deriving DecidableEq,Repr

-- IS TRUE, IS NOT FALSE, IS UNKNOWN and the rest of that family.
inductive TruthTest where
  | isTrue | isNotTrue | isFalse | isNotFalse | isUnknown | isNotUnknown
  deriving DecidableEq,Repr

inductive JoinOperator where
  | join | inner | left | leftOuter | right | rightOuter | fullOuter | crossJoin
  | leftSemi | leftAnti | crossApply | outerApply | other
  deriving DecidableEq,Repr

inductive SetOperator where
  | union
  | except
  | intersect
  deriving DecidableEq,Repr

structure TableAlias where
  name : Ident
  columns : List Ident
  deriving DecidableEq,Repr

inductive AssignmentTarget where
  | columnName (name : ObjectName)
  | tuple (names : List ObjectName)
  deriving DecidableEq,Repr

-- Fields named `unread` hold the expressions of clauses that no analyzer
-- function looks at (window definitions, QUALIFY, FETCH, hints and the like).
mutual

inductive Expr where
  | identifier (ident : Ident)
  | compoundIdentifier (parts : List Ident)
  | value (value : ValueWithSpan)
  | cast (kind : CastKind) (expr : Expr) (dataType : DataType)
  | function (function : Function)
  | binaryOp (left : Expr) (op : BinaryOperator) (right : Expr)
  | unaryOp (op : UnaryOperator) (expr : Expr)
  | nested (expr : Expr)
  | isNull (expr : Expr)
  | isNotNull (expr : Expr)
  | isTruth (test : TruthTest) (expr : Expr)
  | inList (expr : Expr) (list : List Expr) (negated : Bool)
  | inSubquery (expr : Expr) (subquery : Query) (negated : Bool)
  | between (expr : Expr) (negated : Bool) (low high : Expr)
  | like (expr : Expr) (negated : Bool) (pattern : Expr)
  | iLike (expr : Expr) (negated : Bool) (pattern : Expr)
  | case (operand : Option Expr) (conditions : List CaseWhen) (elseResult : Option Expr)
  | subquery (query : Query)
  | exists (subquery : Query) (negated : Bool)
  | anyOp (left : Expr) (op : BinaryOperator) (right : Expr)
  | allOp (left : Expr) (op : BinaryOperator) (right : Expr)
  | array (elem : List Expr)
  | tuple (exprs : List Expr)
  | extract (expr : Expr)
  | substring (expr : Expr) (bounds : List Expr)
  | trim (expr : Expr) (characters : List Expr)
  | position (needle haystack : Expr)
  | atTimeZone (timestamp timeZone : Expr)
  | typedString (dataType : DataType)
  | interval (value : Expr)
  | compoundFieldAccess (root : Expr) (accessChain : List AccessExpr)
  | ceil (expr : Expr)
  | floor (expr : Expr)
  | other (children : List Expr)

inductive AccessExpr where
  | dot (expr : Expr)
  | subscript (indices : List Expr)

structure CaseWhen where
  condition : Expr
  result : Expr

inductive FunctionArgExpr where
  | expr (expr : Expr)
  | qualifiedWildcard (name : ObjectName)
  | wildcard

inductive FunctionArg where
  | named (name : Ident) (arg : FunctionArgExpr)
  | exprNamed (name : Expr) (arg : FunctionArgExpr)
  | unnamed (arg : FunctionArgExpr)

inductive FunctionArguments where
  | none
  | subquery (query : Query)
  | list (args : List FunctionArg) (nullTreatmentClause : Bool) (unread : List Expr)

structure Function where
  name : ObjectName
  args : FunctionArguments
  filter : Option Expr
  nullTreatment : Bool
  overWindow : Option (List Expr)
  unread : List Expr

structure Cte where
  tableAlias : TableAlias
  query : Query

structure With where
  recursive : Bool
  cteTables : List Cte

inductive LimitClause where
  | limitOffset (limit offset : Option Expr) (unread : List Expr)
  | offsetCommaLimit (offset limit : Expr)

structure Query where
  withClause : Option With
  body : SetExpr
  orderBy : List Expr
  limitClause : Option LimitClause
  unread : List Expr

inductive SetExpr where
  | select (select : Select)
  | query (query : Query)
  | setOperation (op : SetOperator) (left right : SetExpr)
  | values (rows : List (List Expr))
  | other (unread : List Expr)

inductive GroupByExpr where
  | all
  | expressions (exprs : List Expr)

inductive WildcardKind where
  | objectName (name : ObjectName)
  | expr (expr : Expr)

-- The options of a wildcard leave out the columns that EXCEPT, EXCLUDE and REPLACE name.
inductive SelectItem where
  | unnamedExpr (expr : Expr)
  | exprWithAlias (expr : Expr) (name : Ident)
  | exprWithAliases (expr : Expr) (names : List Ident)
  | wildcard (leftOut : List Ident) (unread : List Expr)
  | qualifiedWildcard (kind : WildcardKind) (leftOut : List Ident) (unread : List Expr)

structure Select where
  projection : List SelectItem
  sources : List TableWithJoins
  selection : Option Expr
  groupBy : GroupByExpr
  having : Option Expr
  unread : List Expr

structure TableWithJoins where
  relation : TableFactor
  joins : List Join

structure Join where
  relation : TableFactor
  joinOperator : JoinOperator
  condition : Option Expr

inductive TableFactor where
  | table (name : ObjectName) (tableAlias : Option TableAlias) (args : Option (List FunctionArg)) (unread : List Expr)
  | derived (subquery : Query) (tableAlias : Option TableAlias)
  | nestedJoin (tables : TableWithJoins) (tableAlias : Option TableAlias)
  | tableFunction (expr : Expr) (tableAlias : Option TableAlias)
  | unnest (arrayExprs : List Expr) (tableAlias : Option TableAlias)
  | function (name : ObjectName) (args : List FunctionArg) (tableAlias : Option TableAlias)
  | other (unread : List Expr)

end

structure Assignment where
  target : AssignmentTarget
  value : Expr

inductive TableObject where
  | tableName (name : ObjectName)
  | tableFunction (name : ObjectName) (unread : List Expr)
  | tableQuery (query : Query)

structure DoUpdate where
  assignments : List Assignment
  selection : Option Expr

inductive OnConflictAction where
  | doNothing
  | doUpdate (doUpdate : DoUpdate)

inductive OnInsert where
  | duplicateKeyUpdate (assignments : List Assignment)
  | onConflict (action : OnConflictAction)

structure Insert where
  table : TableObject
  columns : List ObjectName
  source : Option Query
  assignments : List Assignment
  on : Option OnInsert
  returning : Option (List SelectItem)

structure Update where
  table : TableWithJoins
  assignments : List Assignment
  sources : Option (List TableWithJoins)
  selection : Option Expr
  returning : Option (List SelectItem)
  unread : List Expr

structure Delete where
  sources : List TableWithJoins
  usingTables : Option (List TableWithJoins)
  selection : Option Expr
  returning : Option (List SelectItem)
  unread : List Expr

inductive Statement where
  | query (query : Query)
  | insert (insert : Insert)
  | update (update : Update)
  | delete (delete : Delete)
  | other

-- The parser library prints its own syntax trees; this development only reads
-- what it prints.
class Printer where
  query : Query → String
  dataType : DataType → String
  expr : Expr → String

end Scythe
