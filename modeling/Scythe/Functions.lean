import Mathlib.Data.List.Sort
import Scythe.Params

namespace Scythe
open Text

-- How the type of a call follows from its arguments, one constructor for each
-- rule. `strict` follows the first argument's nullability, `strictInAll` that
-- of every argument; `fixed` ignores them.
inductive FunctionArm where
  | fixed (neutralType : String) (nullable : Bool)
  | strict (neutralType : String)
  | strictInAll (neutralType : String)
  | sum | avg | minMax | arrayAgg | jsonAgg | rowToJson | toJson
  | coalesce | nullif | row | concat | firstOrUnknown | ceil | round | mod | greatestLeast
  | dateTrunc | extract | lagLead | firstValue | jsonbSetLax | record | unnest
  deriving DecidableEq,Repr

def functionArms : List (List String × FunctionArm) := [
  (["count"],.fixed "int64" false),
  (["sum"],.sum),
  (["avg"],.avg),
  (["min","max"],.minMax),
  (["string_agg"],.fixed "string" true),
  (["array_agg"],.arrayAgg),
  (["bool_and","bool_or","every"],.fixed "bool" true),
  (["json_agg","jsonb_agg"],.jsonAgg),
  (["json_object_agg","jsonb_object_agg"],.fixed "json" true),
  (["row_to_json"],.rowToJson),
  (["coalesce"],.coalesce),
  (["nullif"],.nullif),
  (["row"],.row),
  (["upper","lower","initcap","reverse","ltrim","rtrim","btrim","lpad","rpad","repeat","replace","translate",
    "left","right","md5","encode","decode","chr","to_hex","quote_ident","quote_literal","format",
    "regexp_replace"],.strict "string"),
  (["concat","concat_ws"],.concat),
  (["substring","substr"],.strict "string"),
  (["length","char_length","character_length","octet_length","bit_length","strpos"],.strict "int32"),
  (["abs","sign"],.firstOrUnknown),
  (["ceil","ceiling","floor"],.ceil),
  (["round","trunc"],.round),
  (["pi","random"],.fixed "float64" false),
  (["power","sqrt","cbrt","log","ln","exp","sin","cos","tan","asin","acos","atan","atan2","degrees",
    "radians"],.strict "float64"),
  (["mod"],.mod),
  (["div"],.strict "int64"),
  (["greatest","least"],.greatestLeast),
  (["now","current_timestamp","statement_timestamp","transaction_timestamp","clock_timestamp"],
    .fixed "datetime_tz" false),
  (["current_date","localdate"],.fixed "date" false),
  (["date"],.strict "date"),
  (["current_time","localtime"],.fixed "time_tz" false),
  (["date_trunc"],.dateTrunc),
  (["date_part"],.strict "float64"),
  (["extract"],.extract),
  (["age"],.strictInAll "interval"),
  (["make_date"],.strictInAll "date"),
  (["make_time"],.strictInAll "time"),
  (["make_timestamp"],.strictInAll "datetime"),
  (["make_timestamptz"],.strictInAll "datetime_tz"),
  (["make_interval"],.strictInAll "interval"),
  (["to_timestamp"],.strict "datetime_tz"),
  (["to_date"],.strict "date"),
  (["to_char"],.strict "string"),
  (["row_number","rank","dense_rank","cume_dist","ntile","percent_rank"],.fixed "int64" false),
  (["lag","lead"],.lagLead),
  (["first_value","last_value","nth_value"],.firstValue),
  (["json_build_object","jsonb_build_object","json_build_array","jsonb_build_array"],.fixed "json" false),
  (["to_json","to_jsonb"],.toJson),
  (["json_strip_nulls","jsonb_strip_nulls"],.strict "json"),
  (["array_to_json"],.strictInAll "json"),
  (["json_object","jsonb_object"],.strictInAll "json"),
  (["jsonb_set","jsonb_insert"],.strictInAll "json"),
  (["jsonb_set_lax"],.jsonbSetLax),
  (["json_typeof","jsonb_typeof"],.strict "string"),
  (["json_extract_path_text","jsonb_extract_path_text"],.fixed "string" true),
  (["json_extract_path","jsonb_extract_path"],.fixed "json" true),
  (["json_array_length","jsonb_array_length"],.strict "int32"),
  (["jsonb_pretty"],.strict "string"),
  (["json_each","jsonb_each","json_each_text","jsonb_each_text"],.record),
  (["json_object_keys","jsonb_object_keys"],.fixed "string" false),
  (["json_populate_record","jsonb_populate_record","json_populate_recordset","jsonb_populate_recordset"],.record),
  (["json_array_elements","jsonb_array_elements"],.fixed "json" true),
  (["array_length","array_ndims","array_lower","array_upper","cardinality"],.fixed "int32" true),
  (["array_cat","array_append","array_prepend","array_remove","array_replace","array_positions"],.firstOrUnknown),
  (["array_position"],.fixed "int32" true),
  (["array_to_string"],.fixed "string" true),
  (["unnest"],.unnest),
  (["gen_random_uuid","uuid_generate_v4"],.fixed "uuid" false),
  (["nextval","currval","lastval","setval"],.fixed "int64" false),
  (["pg_typeof"],.fixed "string" false)]

def functionArm (name : String) : Option FunctionArm :=
  (functionArms.find? fun arm => name ∈ arm.1).map (·.2)

-- A call's argument with the name it is passed by.
structure CallArgument where
  name : Option String
  expression : Expr

structure CatalogFunctionMatch where
  function : CatalogFunction
  score : Nat
  bindings : List (Nat × Nat)

variable [CaseMap]

def callArgument : FunctionArg → Option CallArgument
  | .unnamed (.expr e) => some ⟨none,e⟩
  | .named name (.expr e) => some ⟨some (CaseMap.lowercase name.value),e⟩
  | .exprNamed (.identifier name) (.expr e) => some ⟨some (CaseMap.lowercase name.value),e⟩
  | _ => none

def catalogCallArgumentsFromArgs (arguments : List FunctionArg) : Option (List CallArgument) :=
  arguments.mapM' callArgument

def catalogCallArguments (func : Function) : Option (List CallArgument) :=
  match func.args with
  | .list args _ _ => catalogCallArgumentsFromArgs args
  | _ => some []

def arrayElementType (neutralType : String) : Option String :=
  (stripPrefix neutralType "array<").bind fun rest => stripSuffix rest ">"

def sqlArrayElementType (sqlType : String) : Option String := (stripSuffix (trim sqlType) "[]").map trim

def normalizeSqlTypeName (sqlType : String) : String :=
  let spaced := String.ofList (sqlType.toList.map fun c => if isAsciiSpace c then ' ' else c)
  CaseMap.lowercase (join " " ((split spaced ' ').filter (· ≠ "")))

def catalogFunctionReturnNeutral (functionName sqlType : String) (catalog : Catalog) : String :=
  if asciiLowercase sqlType = "record" then untypeableCatalogRecordMarker ++ functionName
  else sqlTypeToNeutral sqlType catalog

def numericTypes : List String := ["int16","int32","int64","decimal","float32","float64"]

def numericPromotionDistance (actual declared : String) : Option Nat :=
  if actual = declared then some 0 else
  if actual ∉ numericTypes ∨ declared ∉ numericTypes ∨ widenType actual declared ≠ declared then none else
  let distance :=
    if actual = "int16" ∧ declared = "int32" then some 1 else
    if (actual = "int16" ∨ actual = "int32") ∧ declared = "int64" then some 2 else
    if (actual = "int16" ∨ actual = "int32" ∨ actual = "int64") ∧ declared = "decimal" then some 3 else
    if actual = "float32" ∧ declared = "float64" then some 1 else
    if declared = "float64" then some 4 else none
  distance.map (100 + ·)

def declarationIndices (function : CatalogFunction) : List Nat :=
  (function.arguments.zipIdx.filter fun argument => argument.1.mode ≠ .out).map (·.2)

def variadicIndex (function : CatalogFunction) : Option Nat :=
  (declarationIndices function).getLast?.filter fun index =>
    (function.arguments[index]?.map fun argument => decide (argument.mode = .variadic)).getD false

-- A named argument goes to the first unused declaration of its name, a
-- positional one to the next declaration, the rest to VARIADIC.
def declarationIndex (function : CatalogFunction) (argument : CallArgument) (used : List Nat)
    (nextPositional : Nat) : Option (Nat × Nat) :=
  let declared := declarationIndices function
  let variadic := variadicIndex function
  match argument.name with
  | some name =>
    (declared.find? fun index => index ∉ used ∧ (function.arguments[index]?.bind (·.name)) = some name).map
      fun index => (index,nextPositional)
  | none =>
    match declared[nextPositional]? with
    | some index => some (index,if some index ≠ variadic then nextPositional + 1 else nextPositional)
    | none => variadic.map fun index => (index,nextPositional)

def bindArguments (function : CatalogFunction) :
    List CallArgument → Nat → List Nat → Nat → Option (List (Nat × Nat) × List Nat)
  | [],_,used,_ => some ([],used)
  | argument :: arguments,callIndex,used,nextPositional =>
    (declarationIndex function argument used nextPositional).bind fun (index,following) =>
      if some index ≠ variadicIndex function ∧ index ∈ used then none else
      (bindArguments function arguments (callIndex + 1) (index :: used) following).map fun (bindings,used) =>
        ((callIndex,index) :: bindings,used)

def bindingScore (catalog : Catalog) (actual : TypeInfo) (declaration : FunctionArgument) : Option Nat :=
  if actual.neutralType = "unknown" then some 0 else do
  let declared := sqlTypeToNeutral declaration.sqlType catalog
  let declared := if declaration.mode = .variadic then (arrayElementType declared).getD declared else declared
  let neutralScore ← numericPromotionDistance actual.neutralType declared
  let declaredSqlType :=
    if declaration.mode = .variadic then (sqlArrayElementType declaration.sqlType).getD declaration.sqlType
    else declaration.sqlType
  let differs := (actual.sqlType.map fun actualSqlType =>
    decide (normalizeSqlTypeName actualSqlType ≠ normalizeSqlTypeName declaredSqlType)).getD false
  some (neutralScore + if neutralScore = 0 ∧ differs then 1 else 0)

def matchCatalogFunction (catalog : Catalog) (function : CatalogFunction) (callArguments : List CallArgument)
    (inferred : List TypeInfo) : Option CatalogFunctionMatch := do
  let (bindings,used) ← bindArguments function callArguments 0 [] 0
  let missing := (declarationIndices function).any fun index =>
    index ∉ used && (function.arguments[index]?.map fun argument =>
      argument.mode ≠ .variadic && !argument.hasDefault).getD false
  if missing then none else
  let scores ← bindings.mapM' fun binding => do
    bindingScore catalog (← inferred[binding.1]?) (← function.arguments[binding.2]?)
  some ⟨function,scores.sum,bindings⟩

inductive CatalogOverload where
  | none
  | ambiguous
  | best (found : CatalogFunctionMatch)

-- The overload of least score; two of the same least score are ambiguous.
def resolveOverload (catalog : Catalog) (overloads : List CatalogFunction) (callArguments : List CallArgument)
    (inferred : List TypeInfo) : CatalogOverload :=
  let found := overloads.filterMap fun function => matchCatalogFunction catalog function callArguments inferred
  match found.insertionSort fun a b => a.score ≤ b.score with
  | [] => .none
  | [best] => .best best
  | best :: other :: _ => if other.score = best.score then .ambiguous else .best best

def variadicElement (declaration : FunctionArgument) (neutralType : String) : String :=
  if declaration.mode = .variadic then (arrayElementType neutralType).getD neutralType else neutralType

def registerCatalogFunctionParams (catalog : Catalog) (found : CatalogFunctionMatch)
    (callArguments : List CallArgument) : Analysis Unit :=
  found.bindings.forM fun binding =>
    match callArguments[binding.1]?,found.function.arguments[binding.2]? with
    | some argument,some declaration =>
      discard <| registerAt argument.expression (return ⟨declaration.name,
        some (variadicElement declaration (sqlTypeToNeutral declaration.sqlType catalog)),true,none⟩)
    | _,_ => return ()

end Scythe
