import Scythe.Naming

-- The names of the generated code. The analyzer has a case conversion of its own;
-- this one belongs to the backends and goes through snake case.
namespace Scythe.Identifiers
open Text

structure NamingConfig where
  structCase : String
  fnCase : String
  enumVariantCase : String
  rowSuffix : String
  fieldCase : String
  reserved : List String
  sanitizeFieldNames : Bool
  deriving DecidableEq,Repr

variable [CaseMap]

def capitalized : List Char → List Char
  | [] => []
  | first :: rest => CaseMap.upperChar first ++ rest

-- A text of nothing but underscores keeps them.
def toPascalCase (s : String) : String :=
  let snake := toSnakeCase s
  let result := (splitChars '_' snake.toList).flatMap capitalized
  if result = [] then snake else String.ofList result

def toCamelCase (s : String) : String :=
  match (toPascalCase s).toList with
  | first :: rest => String.ofList (CaseMap.lowerChar first ++ rest)
  | [] => s

def toScreamingSnakeCase (s : String) : String := CaseMap.uppercase (toSnakeCase s)

def applyCase (s case : String) : String :=
  if case = "PascalCase" then toPascalCase s
  else if case = "snake_case" then toSnakeCase s
  else if case = "camelCase" then toCamelCase s
  else if case = "SCREAMING_SNAKE_CASE" then toScreamingSnakeCase s
  else s

def replaceNonIdentifierChars (s : String) : String :=
  String.ofList (s.toList.map fun c => if CaseMap.isAlphanumeric c || c = '_' then c else '_')

def startsWithDigit (s : String) : Bool := (s.toList.head?.map isDigit).getD false

def sanitizeForIdentifier (s : String) : String :=
  let result := replaceNonIdentifierChars s
  if startsWithDigit result then "V" ++ result else result

variable (naming : NamingConfig)

def rowStructName (queryName : String) : String := applyCase queryName naming.structCase ++ naming.rowSuffix
def fnName (queryName : String) : String := applyCase queryName naming.fnCase
def enumTypeName (sqlName : String) : String := applyCase (sanitizeForIdentifier sqlName) naming.structCase
def compositeTypeName (sqlName : String) : String := applyCase (sanitizeForIdentifier sqlName) naming.structCase

def enumVariantName (sqlValue : String) : String :=
  applyCase (sanitizeForIdentifier sqlValue) naming.enumVariantCase

def unreserved (cased : String) : String := if cased ∈ naming.reserved then cased ++ "_" else cased

def identifierName (sqlName : String) : String :=
  let replaced := replaceNonIdentifierChars sqlName
  let shaped := if startsWithDigit replaced then "col_" ++ replaced else replaced
  unreserved naming (applyCase shaped naming.fieldCase)

def fieldName (sqlName : String) : String :=
  if naming.sanitizeFieldNames then identifierName naming sqlName
  else unreserved naming (applyCase sqlName naming.fieldCase)

-- The lengths that are cut off are those of endings that the name has.
def singularize (name : String) : String :=
  let without n := String.ofList (name.toList.take (name.toList.length - n))
  if endsWith name "ies" then without 3 ++ "y"
  else if ["sses","shes","ches","xes","zes","ses"].any (endsWith name) then without 2
  else if endsWith name "s" && !endsWith name "ss" then without 1
  else name

def modelStructName (tableName : String) : String :=
  applyCase (singularize (sanitizeForIdentifier tableName)) naming.structCase

end Scythe.Identifiers
