import Scythe.Catalog

namespace Scythe
open Text

def stripPrecision (s : String) : String :=
  match rsplitOnce s '(' with
  | some (before,after) =>
    match stripSuffix after ")" with
    | some inner => if inner.toList.all fun c => isDigit c || c = ',' || c = ' ' then trim before else s
    | none => s
  | none => s

def bitTypeToNeutral (lower : String) (dialect : SqlDialect) : Option String := do
  let inner ← stripSuffix (← stripPrefix lower "bit(") ")"
  let width ← parseUnsigned 64 (trim inner)
  if width ≤ 1 then some "bool" else
  if dialect = .mySQL then some "int64" else some "bytes"

def numberTypeToNeutral (lower : String) : Option String := do
  let inner ← stripSuffix (← stripPrefix lower "number(") ")"
  let (_,scale) ← splitOnce inner ','
  let scale ← parseI64 (trim scale)
  if scale > 0 then some "decimal" else none

-- The fixed spellings, in the order of their arms; an arm with a dialect is
-- tried in that dialect only, and before the arm of the same name without one.
def namedTypes : List (Option SqlDialect × List String × String) := [
  (some .sqLite,["integer","int"],"int64"),
  (some .snowflake,["integer","int"],"int64"),
  (none,["integer","int","int4","serial"],"int32"),
  (some .snowflake,["smallint","tinyint","byteint"],"int64"),
  (none,["smallint","int2","smallserial"],"int16"),
  (none,["bigint","int8","bigserial"],"int64"),
  (none,["tinyint","byteint"],"int16"),
  (none,["mediumint"],"int32"),
  (none,["int1"],"int16"),
  (none,["hugeint","uhugeint"],"decimal"),
  (none,["number"],"int64"),
  (some .sqLite,["real","float4"],"float64"),
  (some .snowflake,["real","float4"],"float64"),
  (none,["real","float4"],"float32"),
  (none,["double precision","float8","double"],"float64"),
  (some .mySQL,["float"],"float32"),
  (none,["float"],"float64"),
  (none,["numeric","decimal"],"decimal"),
  (none,["money","smallmoney"],"decimal"),
  (none,["tinyint unsigned","smallint unsigned"],"int16"),
  (none,["mediumint unsigned","int unsigned","integer unsigned"],"int32"),
  (none,["bigint unsigned"],"int64"),
  (none,["text","character varying","character","varchar","char","varchar2","nvarchar2"],"string"),
  (none,["nvarchar","nchar","ntext"],"string"),
  (none,["tinytext","mediumtext","longtext","clob","nclob"],"string"),
  (none,["set"],"string"),
  (none,["xml"],"string"),
  (none,["geography","geometry"],"string"),
  (none,["boolean","bool"],"bool"),
  (none,["bytea"],"bytes"),
  (none,["blob","tinyblob","mediumblob","longblob","binary","varbinary","bfile"],"bytes"),
  (none,["uuid","uniqueidentifier"],"uuid"),
  (none,["date"],"date"),
  (none,["time","time without time zone"],"time"),
  (none,["time with time zone","timetz"],"time_tz"),
  (none,["timestamp","timestamp without time zone"],"datetime"),
  (none,["timestamp with time zone","timestamptz"],"datetime_tz"),
  (none,["datetime","datetime2"],"datetime"),
  (none,["datetimeoffset"],"datetime_tz"),
  (none,["interval"],"interval"),
  (none,["year"],"int16"),
  (none,["timestamp_ntz"],"datetime"),
  (none,["timestamp_ltz"],"datetime_tz"),
  (none,["timestamp_tz"],"datetime_tz"),
  (none,["json","jsonb","variant","super"],"json"),
  (none,["inet","cidr","macaddr"],"inet"),
  (none,["bit"],"bool"),
  (none,["bit varying","varbit"],"bytes"),
  (none,["integer[]","int4[]","int[]"],"array<int32>"),
  (none,["text[]","character varying[]","varchar[]"],"array<string>"),
  (none,["boolean[]","bool[]"],"array<bool>"),
  (none,["bigint[]","int8[]"],"array<int64>"),
  (none,["smallint[]","int2[]"],"array<int16>"),
  (none,["real[]","float4[]"],"array<float32>"),
  (none,["double precision[]","float8[]"],"array<float64>"),
  (none,["uuid[]"],"array<uuid>"),
  (none,["numeric[]","decimal[]"],"array<decimal>"),
  (none,["jsonb[]","json[]"],"array<json>"),
  (none,["int4range"],"range<int32>"),
  (none,["int8range"],"range<int64>"),
  (none,["tstzrange"],"range<datetime_tz>"),
  (none,["tsrange"],"range<datetime>"),
  (none,["daterange"],"range<date>"),
  (none,["numrange"],"range<decimal>")]

def namedType (dialect : SqlDialect) (name : String) : Option String :=
  (namedTypes.find? fun arm => (arm.1 = none ∨ arm.1 = some dialect) ∧ name ∈ arm.2.1).map (·.2.2)

variable [CaseMap]

-- A chain of domains ends after as many steps as there are domains, each step
-- after stripping at most as many array suffixes as its text has characters.
-- A chain that does not end overflows the stack; it never returns a name.
def sqlTypeToNeutralWithin (catalog : Catalog) : Nat → String → String
  | 0,sqlType => stripPrecision (CaseMap.lowercase sqlType)
  | fuel + 1,sqlType =>
    let lower := CaseMap.lowercase sqlType
    let normalized := stripPrecision lower
    match bitTypeToNeutral lower catalog.dialect with
    | some neutral => neutral
    | none =>
    match numberTypeToNeutral lower with
    | some neutral => neutral
    | none =>
    match namedType catalog.dialect normalized with
    | some neutral => neutral
    | none =>
    match stripSuffix normalized "[]" with
    | some inner => s!"array<{sqlTypeToNeutralWithin catalog fuel inner}>"
    | none =>
    match catalog.getDomainBaseType normalized with
    | some baseType => sqlTypeToNeutralWithin catalog fuel baseType
    | none =>
    if (catalog.getEnum normalized).isSome then s!"enum::{normalized}" else
    if (catalog.getComposite normalized).isSome then s!"composite::{normalized}" else
    normalized

-- The resolver reads a catalog through its dialect, its domains, and which
-- enums and composite types there are.
theorem neutralWithin_reads {a b : Catalog} (dialect : a.dialect = b.dialect)
    (domain : ∀ name,a.getDomainBaseType name = b.getDomainBaseType name)
    (enum : ∀ name,(a.getEnum name).isSome = (b.getEnum name).isSome)
    (composite : ∀ name,(a.getComposite name).isSome = (b.getComposite name).isSome) (fuel : Nat) (text : String) :
    sqlTypeToNeutralWithin a fuel text = sqlTypeToNeutralWithin b fuel text := by
  induction fuel generalizing text with
  | zero => rfl
  | succ fuel ih => simp only [sqlTypeToNeutralWithin,dialect,ih,composite,enum,domain]

def typeDepth (catalog : Catalog) (sqlType : String) : Nat :=
  sqlType.length + (catalog.domains.entries.map fun entry => entry.2.baseType.length + 1).sum + 1

def sqlTypeToNeutral (sqlType : String) (catalog : Catalog) : String :=
  sqlTypeToNeutralWithin catalog (typeDepth catalog sqlType) sqlType

def objectNameToString (name : ObjectName) : String :=
  join "." (name.map fun part => match part with
    | .identifier ident => ident.value
    | .function => "")

def floatToNeutral (info : ExactNumberInfo) (dialect : SqlDialect) : String :=
  match info with
  | .precision p => if p ≤ 24 then "float32" else "float64"
  | .none => if dialect = .mySQL then "float32" else "float64"
  | .precisionAndScale _ _ => "float64"

def customToNeutral (name : ObjectName) (tokens : List String) (catalog : Catalog) : String :=
  let raw := CaseMap.lowercase (objectNameToString name)
  if raw = "timestamptz" then "datetime_tz" else
  if raw = "timetz" then "time_tz" else
  if raw = "serial" ∨ raw = "serial4" then "int32" else
  if raw = "bigserial" ∨ raw = "serial8" then "int64" else
  if raw = "smallserial" ∨ raw = "serial2" then "int16" else
  if raw = "timestamp_ntz" then "datetime" else
  if raw = "timestamp_ltz" then "datetime_tz" else
  if raw = "timestamp_tz" then "datetime_tz" else
  if raw = "variant" then "json" else
  if raw = "number" then
    match tokens with
    | [] => "decimal"
    | [_] => "int64"
    | _ :: scale :: _ => if ((parseI64 (trim scale)).map fun s => decide (s > 0)).getD true then "decimal" else "int64"
  else sqlTypeToNeutral raw catalog

-- The arms that have no rule of their own go through the printed type.
def datatypeToNeutral (dt : DataType) (catalog : Catalog) : String :=
  let d := catalog.dialect
  match dt with
  | .int | .integer => if d = .sqLite ∨ d = .snowflake then "int64" else "int32"
  | .int4 => "int32"
  | .smallInt | .int2 => if d = .snowflake then "int64" else "int16"
  | .tinyInt => if d = .snowflake then "int64" else "int16"
  | .bigInt | .int8 => "int64"
  | .real | .float4 => if d = .sqLite ∨ d = .snowflake then "float64" else "float32"
  | .doublePrecision | .float8 => "float64"
  | .float info => floatToNeutral info d
  | .tinyIntUnsigned | .int2Unsigned | .smallIntUnsigned => "int16"
  | .mediumIntUnsigned | .intUnsigned | .int4Unsigned | .integerUnsigned => "int32"
  | .bigIntUnsigned | .int8Unsigned => "int64"
  | .decimalUnsigned _ | .decUnsigned _ => "decimal"
  | .realUnsigned => "float32"
  | .floatUnsigned info => floatToNeutral info d
  | .doubleUnsigned | .doublePrecisionUnsigned => "float64"
  | .numeric _ | .decimal _ | .dec _ => "decimal"
  | .varchar _ | .charVarying _ | .characterVarying _ | .text | .char _ | .character _ | .nvarchar _ => "string"
  | .bool | .boolean => "bool"
  | .bytea | .blob | .tinyBlob | .mediumBlob | .longBlob | .binary | .varbinary _ => "bytes"
  | .uuid => "uuid"
  | .mediumInt => "int32"
  | .datetime => "datetime"
  | .bit width =>
    if width.getD 0 > 1 then (if d = .mySQL then "int64" else "bytes") else "bool"
  | .bitVarying | .varBit => "bytes"
  | .enum _ | .set | .tinyText | .mediumText | .longText | .clob => "string"
  | .date => "date"
  | .time _ zone => if zone = .withTimeZone ∨ zone = .tz then "time_tz" else "time"
  | .timestamp _ zone => if zone = .withTimeZone ∨ zone = .tz then "datetime_tz" else "datetime"
  | .interval => "interval"
  | .json | .jsonb => "json"
  | .array none => "array<unknown>"
  | .array (some inner) => s!"array<{datatypeToNeutral inner catalog}>"
  | .custom name tokens => customToNeutral name tokens catalog
  | .other display => sqlTypeToNeutral (CaseMap.lowercase display) catalog

end Scythe
