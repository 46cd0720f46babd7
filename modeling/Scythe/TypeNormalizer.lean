import Scythe.Catalog

namespace Scythe
open Text

def floatType (info : ExactNumberInfo) (dialect : SqlDialect) : String :=
  match info with
  | .precision p => if p ≤ 24 then "real" else "double precision"
  | .precisionAndScale _ _ => "double precision"
  | .none => if dialect = .mySQL then "real" else "double precision"

def numericType (info : ExactNumberInfo) : String :=
  match info with
  | .precisionAndScale p s => s!"numeric({p},{s})"
  | .precision p => s!"numeric({p})"
  | .none => "numeric"

def varcharType (length : Option CharacterLength) : String :=
  match length with
  | some (.integerLength length) => s!"varchar({length})"
  | _ => "text"

def charType (length : Option CharacterLength) : String :=
  match length with
  | some (.integerLength length) => s!"char({length})"
  | _ => "char(1)"

def withPrecision (base : String) (precision : Option Nat) : String :=
  match precision with
  | some p => s!"{base}({p})"
  | none => base

section
variable [CaseMap]

-- The names the parser has no type of its own for. The flag says that the
-- column holds no NULL by its type alone: SERIAL, or a domain declared NOT NULL.
def normalizeCustom (domains : AHashMap DomainDef) (name : ObjectName) (tokens : List String) : String × Bool :=
  let raw := objectNameToKey name
  if raw = "serial" ∨ raw = "serial4" then ("integer",true) else
  if raw = "bigserial" ∨ raw = "serial8" then ("bigint",true) else
  if raw = "smallserial" ∨ raw = "serial2" then ("smallint",true) else
  if raw = "timestamptz" then ("timestamptz",false) else
  if raw = "timetz" then ("timetz",false) else
  let resolved : String × Bool :=
    match lookupQualified domains raw none with
    | some domain => (domain.baseType,domain.notNull)
    | none => (raw,false)
  if raw = "number" then
    match tokens with
    | p :: s :: _ => if s ≠ "0" then (s!"numeric({p},{s})",false) else ("number",false)
    | _ => resolved
  else resolved

variable [Printer]

-- The arms that have no rule of their own go through the printed type.
def normalizeDataType (domains : AHashMap DomainDef) (dialect : SqlDialect) : DataType → String × Bool
  | .custom name tokens => normalizeCustom domains name tokens
  | .int | .int4 | .integer => ("integer",false)
  | .smallInt | .int2 => ("smallint",false)
  | .bigInt | .int8 => ("bigint",false)
  | .bool | .boolean => ("boolean",false)
  | .real | .float4 => ("real",false)
  | .doublePrecision | .float8 => ("double precision",false)
  | .float info | .floatUnsigned info => (floatType info dialect,false)
  | .realUnsigned => ("real",false)
  | .doubleUnsigned | .doublePrecisionUnsigned => ("double precision",false)
  | .decimalUnsigned info | .decUnsigned info => (numericType info,false)
  | .tinyIntUnsigned => ("tinyint unsigned",false)
  | .int2Unsigned | .smallIntUnsigned => ("smallint unsigned",false)
  | .mediumIntUnsigned => ("mediumint unsigned",false)
  | .intUnsigned | .int4Unsigned | .integerUnsigned => ("int unsigned",false)
  | .bigIntUnsigned | .int8Unsigned => ("bigint unsigned",false)
  | .varchar length | .charVarying length | .characterVarying length | .nvarchar length =>
    (varcharType length,false)
  | .char length | .character length => (charType length,false)
  | .text => ("text",false)
  | .varbinary (some (.integerLength length)) => (s!"varbinary({length})",false)
  | .varbinary _ => ("varbinary",false)
  | .numeric info | .decimal info | .dec info => (numericType info,false)
  | .date => ("date",false)
  | .time precision zone =>
    (withPrecision (if zone = .withTimeZone ∨ zone = .tz then "timetz" else "time") precision,false)
  | .timestamp precision zone =>
    (withPrecision (if zone = .withTimeZone ∨ zone = .tz then "timestamptz" else "timestamp") precision,false)
  | .interval => ("interval",false)
  | .json => ("json",false)
  | .jsonb => ("jsonb",false)
  | .bytea => ("bytea",false)
  | .uuid => ("uuid",false)
  | .array element =>
    let inner := match element with
      | some element => (normalizeDataType domains dialect element).1
      | none => "unknown"
    let short :=
      if inner = "integer" then "int" else
      if inner = "character varying" then "text" else inner
    (short ++ "[]",false)
  | .bit width => (withPrecision "bit" width,false)
  | .bitVarying | .varBit => ("bit varying",false)
  | .other display => (CaseMap.lowercase display,false)
  | dt => (CaseMap.lowercase (Printer.dataType dt),false)

-- A function's signature names a domain itself, where a column names the type
-- under it.
def functionSqlType (domains : AHashMap DomainDef) (dialect : SqlDialect) (dt : DataType) : String :=
  let isDomain (name : ObjectName) : Bool := (lookupQualified domains (objectNameToKey name) none).isSome
  match dt with
  | .custom name _ =>
    if isDomain name then objectNameToKey name else (normalizeDataType domains dialect dt).1
  | .array none => "unknown[]"
  | .array (some (.custom name _)) =>
    if isDomain name then objectNameToKey name ++ "[]" else (normalizeDataType domains dialect dt).1
  | _ => (normalizeDataType domains dialect dt).1

end
end Scythe
