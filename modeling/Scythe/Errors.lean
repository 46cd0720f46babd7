import Scythe.Lib.Text

namespace Scythe

inductive SqlDialect where
  | postgreSQL
  | mySQL
  | sqLite
  | msSql
  | oracle
  | snowflake
  deriving DecidableEq,Repr

inductive ErrorCode where
  | syntaxError
  | unknownTable
  | unknownColumn
  | unknownFunction
  | ambiguousFunction
  | ambiguousColumn
  | typeMismatch
  | invalidAnnotation
  | columnCountMismatch
  | invalidRecursion
  | invalidConfig
  | unresolvedType
  deriving DecidableEq,Repr

def ErrorCode.display : ErrorCode → String
  | .syntaxError => "SYNTAX_ERROR"
  | .unknownTable => "UNKNOWN_TABLE"
  | .unknownColumn => "UNKNOWN_COLUMN"
  | .unknownFunction => "UNKNOWN_FUNCTION"
  | .ambiguousFunction => "AMBIGUOUS_FUNCTION"
  | .ambiguousColumn => "AMBIGUOUS_COLUMN"
  | .typeMismatch => "TYPE_MISMATCH"
  | ErrorCode.invalidAnnotation => "INVALID_ANNOTATION"
  | .columnCountMismatch => "COLUMN_COUNT_MISMATCH"
  | .invalidRecursion => "INVALID_RECURSION"
  | .invalidConfig => "INVALID_CONFIG"
  | .unresolvedType => "UNRESOLVED_TYPE"

structure ScytheError where
  code : ErrorCode
  message : String
  deriving DecidableEq,Repr

def ScytheError.display (failure : ScytheError) : String := s!"{failure.code.display}: {failure.message}"

namespace ScytheError

def syntaxError (msg : String) : ScytheError := ⟨.syntaxError,msg⟩
def unknownTable (name : String) : ScytheError := ⟨.unknownTable,s!"table \"{name}\" does not exist"⟩
def unknownColumn (name : String) : ScytheError := ⟨.unknownColumn,s!"column \"{name}\" does not exist"⟩
def unknownFunction (name : String) : ScytheError := ⟨.unknownFunction,s!"function \"{name}\" does not exist"⟩
def ambiguousFunction (name : String) : ScytheError :=
  ⟨.ambiguousFunction,s!"function call \"{name}\" is ambiguous"⟩
def ambiguousColumn (name : String) : ScytheError := ⟨.ambiguousColumn,s!"column \"{name}\" is ambiguous"⟩
def typeMismatch (msg : String) : ScytheError := ⟨.typeMismatch,msg⟩
def invalidAnnotation (msg : String) : ScytheError := ⟨ ErrorCode.invalidAnnotation,msg⟩
def invalidRecursion (msg : String) : ScytheError := ⟨.invalidRecursion,msg⟩
def invalidConfig (msg : String) : ScytheError := ⟨.invalidConfig,msg⟩

def columnCountMismatch (left right : Nat) : ScytheError :=
  ⟨.columnCountMismatch,s!"column count mismatch: {left} vs {right}"⟩

def cteColumnAliasMismatch (aliasCount columnCount : Nat) : ScytheError :=
  ⟨.columnCountMismatch,
    s!"CTE column alias list has {aliasCount} entries but the CTE body produces {columnCount} columns"⟩

def untypeableRecord (subject column function : String) : ScytheError :=
  ⟨.unresolvedType,s!"{subject} \"{column}\": {function}(...) in the select list returns PostgreSQL's anonymous " ++
    "`record` type, which scythe cannot resolve to a type it can generate code for -- move it " ++
    s!"into the FROM clause instead (e.g. `FROM ..., {function}(...) AS {column}`) and select " ++
    s!"{column}'s fields directly instead of the whole record"⟩

def untypeableCatalogRecord (subject column function : String) : ScytheError :=
  ⟨.unresolvedType,
    s!"{subject} \"{column}\": function {function}(...) returns PostgreSQL's anonymous `record` type; " ++
    "declare a named composite return type or explicit RETURNS TABLE/OUT columns so scythe can resolve " ++
    "the result fields"⟩

def untypeableRowConstructor (subject column : String) : ScytheError :=
  ⟨.unresolvedType,
    s!"{subject} \"{column}\": ROW(...) builds a row with no single neutral type scythe can name -- " ++
    "CAST it to a named composite type, or select its fields individually instead of one ROW(...) value"⟩

def unresolvedExpressionType (subject column : String) : ScytheError :=
  ⟨.unresolvedType,s!"{subject} \"{column}\": scythe could not determine a type for this expression"⟩

end ScytheError
end Scythe
