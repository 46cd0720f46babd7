import Scythe.AlterTable
import Scythe.AlterType
import Scythe.CanonicalOrder
import Scythe.InlineEnums
import Scythe.Lib.Exchange

-- The statements that change a catalog, and which entries of it each of them
-- changes and looks at.
namespace Scythe
open Text Contents Exchange LastWrite

structure ViewColumnDef where
  name : Ident
  dataType : Option DataType

-- A table without listed columns takes them from the query that it is created AS.
inductive DdlStatement where
  | createDomain (domain : CreateDomain)
  | createTable (table : CreateTable) (query : Option Query)
  | createView (name : ObjectName) (columns : List ViewColumnDef) (query : Query)
  | createType (name : ObjectName) (representation : UserDefinedTypeRepresentation)
  | createFunction (definition : CreateFunction)
  | alterTable (name : ObjectName) (operations : List AlterTableOperation)
  | alterType (name : ObjectName) (operation : AlterTypeOperation)

-- A computed column has its neutral type for a SQL type.
def neutralLabelToSqlType (label : String) : String :=
  match label with
  | "int16" => "smallint"
  | "int32" => "integer"
  | "int64" => "bigint"
  | "float32" => "real"
  | "float64" => "double precision"
  | "decimal" => "numeric"
  | "string" => "text"
  | "bool" => "boolean"
  | "bytes" => "bytea"
  | "time_tz" => "timetz"
  | "datetime" => "timestamp"
  | "datetime_tz" => "timestamptz"
  | other => other

section
variable [CaseMap] [Printer]

-- `none` is an analysis that does not end.
def resolveSelectColumns (catalog : Catalog) (query : Query) : Option (Except ScytheError (List Column)) :=
  (analyze catalog ⟨"",.many,"",.query query,.empty⟩).map fun outcome => outcome.map fun analyzed =>
    analyzed.columns.map fun c => ⟨c.name,neutralLabelToSqlType c.sqlType,c.nullable,none,false⟩

-- The names that a view declares for its columns, with the types it may declare.
def viewColumns (dialect : SqlDialect) (domains : AHashMap DomainDef) (declared : List ViewColumnDef)
    (analyzed : List Column) : Except ScytheError (List Column) :=
  if declared.isEmpty then .ok analyzed else
  if declared.length ≠ analyzed.length then .error (.columnCountMismatch declared.length analyzed.length) else
  .ok (declared.zipWith (fun vc column =>
    ⟨identToLower vc.name,(vc.dataType.map fun dt => (normalizeDataType domains dialect dt).1).getD column.sqlType,
      column.nullable,none,false⟩) analyzed)

def processCreateView (dialect : SqlDialect) (catalog : Catalog) (name : ObjectName) (declared : List ViewColumnDef)
    (query : Query) : Option (Except ScytheError Catalog) :=
  (resolveSelectColumns catalog query).map fun outcome => do
    let columns ← viewColumns dialect catalog.domains declared (← outcome)
    return { catalog with tables := catalog.tables.insert (objectNameToKey name) ⟨columns,objectNameToRawName name⟩ }

def processCreateTableAs (catalog : Catalog) (ct : CreateTable) (query : Query) : Option (Except ScytheError Catalog) :=
  (resolveSelectColumns catalog query).map fun outcome => outcome.map fun columns =>
    if ct.ifNotExists ∧ objectNameToKey ct.name ∈ catalog.tables then catalog else
    { catalog with
      tables := catalog.tables.insert (objectNameToKey ct.name) ⟨columns,objectNameToRawName ct.name⟩ }

variable [TypeParser]

def processDdl (dialect : SqlDialect) (catalog : Catalog) : DdlStatement → Option (Except ScytheError Catalog)
  | .createDomain domain => some (.ok (processCreateDomain dialect catalog domain))
  | .createTable table query =>
    match table.columns,query with
    | [],some query => processCreateTableAs catalog table query
    | _,_ => some (.ok (processCreateTable dialect catalog table))
  | .createView name columns query => processCreateView dialect catalog name columns query
  | .createType name representation => some (.ok (processCreateType dialect catalog name representation))
  | .createFunction definition => some (processCreateFunction dialect catalog definition)
  | .alterTable name operations => some (processAlterTable dialect catalog name operations)
  | .alterType name operation => some (.ok (processAlterType catalog name operation))

-- The catalog after a statement that goes through.
def applied (dialect : SqlDialect) (statement : DdlStatement) (catalog : Catalog) : Option Catalog :=
  (processDdl dialect catalog statement).bind Except.toOption

end

-- An entry of a catalog: one overload of a function is an entry of its own. What
-- no statement of a schema changes is one more.
inductive CatalogObject where
  | table (key : String)
  | enum (key : String)
  | composite (key : String)
  | domain (key : String)
  | function (key : String) (signature : List String)
  | settings
  deriving DecidableEq

def overloadAt (catalog : Catalog) (key : String) (signature : List String) : Option CatalogFunction :=
  ((catalog.functions.lookup key).getD []).find? fun function => inputSignature function = signature

structure SameSettings (a b : Catalog) : Prop where
  dialect : a.dialect = b.dialect
  engine : a.engine = b.engine
  searchPath : a.searchPath = b.searchPath
  rawColumnTypes : Same (fun types column => types.lookup column) a.rawColumnTypes b.rawColumnTypes

def AgreeAt (a b : Catalog) : CatalogObject → Prop
  | .table key => a.tables.lookup key = b.tables.lookup key
  | .enum key => a.enums.lookup key = b.enums.lookup key
  | .composite key => a.composites.lookup key = b.composites.lookup key
  | .domain key => a.domains.lookup key = b.domains.lookup key
  | .function key signature => overloadAt a key signature = overloadAt b key signature
  | .settings => SameSettings a b

def agree (object : CatalogObject) (a b : Catalog) : Prop := AgreeAt a b object

theorem agree_equivalence (object : CatalogObject) : Equivalence (agree object) := by
  cases object with
  | settings =>
    refine ⟨fun _ => ⟨rfl,rfl,rfl,same_refl _ _⟩,?_,?_⟩
    · intro a b same
      exact ⟨same.dialect.symm,same.engine.symm,same.searchPath.symm,same_symm same.rawColumnTypes⟩
    · intro a b c first second
      exact ⟨first.dialect.trans second.dialect,first.engine.trans second.engine,
        first.searchPath.trans second.searchPath,same_trans first.rawColumnTypes second.rawColumnTypes⟩
  | _ => exact ⟨fun _ => rfl,Eq.symm,Eq.trans⟩

-- Every function has an overload, and no two of its overloads take the same arguments.
structure DistinctOverloads (catalog : Catalog) : Prop where
  filled : ∀ (key : String) (overloads : List CatalogFunction),
    catalog.functions.lookup key = some overloads → overloads ≠ []
  apart : ∀ (key : String) (overloads : List CatalogFunction),
    catalog.functions.lookup key = some overloads → (overloads.map inputSignature).Nodup

theorem distinctOverloads_new (dialect : SqlDialect) : DistinctOverloads (Catalog.new dialect) := by
  constructor
  · intro key overloads found
    cases found
  · intro key overloads found
    cases found

theorem mem_overloads {overloads : List CatalogFunction} (apart : (overloads.map inputSignature).Nodup)
    {function : CatalogFunction} :
    function ∈ overloads ↔ (overloads.find? fun f => inputSignature f = inputSignature function) = some function := by
  constructor
  · intro inside
    have found : (overloads.find? fun f => inputSignature f = inputSignature function).isSome :=
      List.find?_isSome.mpr ⟨function,inside,by simp⟩
    obtain ⟨other,is⟩ := Option.isSome_iff_exists.mp found
    have same := List.find?_some is
    rw [is,List.inj_on_of_nodup_map apart (List.mem_of_find?_eq_some is) inside (by simpa using same)]
  · exact List.mem_of_find?_eq_some

theorem overloads_perm {xs ys : List CatalogFunction} (apart : (xs.map inputSignature).Nodup)
    (apart' : (ys.map inputSignature).Nodup)
    (same : ∀ signature,(xs.find? fun f => inputSignature f = signature) =
      ys.find? fun f => inputSignature f = signature) : xs.Perm ys := by
  refine (List.perm_ext_iff_of_nodup (.of_map _ apart) (.of_map _ apart')).mpr fun function => ?_
  rw [mem_overloads apart,mem_overloads apart',same]

theorem find_perm {xs ys : List CatalogFunction} (apart : (xs.map inputSignature).Nodup) (perm : xs.Perm ys)
    (signature : List String) :
    (xs.find? fun f => inputSignature f = signature) = ys.find? fun f => inputSignature f = signature := by
  have apart' := (perm.map inputSignature).nodup_iff.mp apart
  have either (zs : List CatalogFunction) (function : CatalogFunction)
      (found : (zs.find? fun f => inputSignature f = signature) = some function) :
      inputSignature function = signature := by simpa using List.find?_some found
  cases left : xs.find? fun f => inputSignature f = signature with
  | some function =>
    have named := either xs function left
    have inside := perm.mem_iff.mp (List.mem_of_find?_eq_some left)
    have found := (mem_overloads apart').mp inside
    rw [named] at found
    exact found.symm
  | none =>
    cases right : ys.find? fun f => inputSignature f = signature with
    | none => rfl
    | some function =>
      have named := either ys function right
      have found := (mem_overloads apart).mp (perm.mem_iff.mpr (List.mem_of_find?_eq_some right))
      rw [named,left] at found
      cases found

-- Catalogs that agree on every entry are interchangeable, and the other way.
theorem interchangeable_iff {a b : Catalog} (left : DistinctOverloads a) (right : DistinctOverloads b) :
    Interchangeable a b ↔ ∀ object,agree object a b := by
  constructor
  · intro same object
    cases object with
    | table key => exact same_lookup same.tables key
    | enum key => exact same_lookup same.enums key
    | composite key => exact same_lookup same.composites key
    | domain key => exact same_lookup same.domains key
    | settings => exact ⟨same.dialect,same.engine,same.searchPath,same.rawColumnTypes⟩
    | function key signature =>
      have own := same.functions key
      show overloadAt a key signature = overloadAt b key signature
      unfold overloadAt
      cases found : a.functions.lookup key with
      | none =>
        rw [found] at own
        rw [Option.map_eq_none_iff.mp own.symm]
      | some overloads =>
        rw [found] at own
        obtain ⟨others,found',equal⟩ := Option.map_eq_some_iff.mp own.symm
        rw [found']
        exact find_perm (left.apart key overloads found) (Multiset.coe_eq_coe.mp equal).symm signature
  · intro same
    have settings : SameSettings a b := same .settings
    refine ⟨same_of_lookup fun key => same (.table key),same_of_lookup fun key => same (.enum key),
      same_of_lookup fun key => same (.composite key),fun key => ?_,same_of_lookup fun key => same (.domain key),
      settings.dialect,settings.engine,settings.searchPath,settings.rawColumnTypes⟩
    have own : ∀ signature,overloadAt a key signature = overloadAt b key signature :=
      fun signature => same (.function key signature)
    unfold overloadAt at own
    -- A function without overloads would answer as one that is not there.
    have signed {c : Catalog} (distinct : DistinctOverloads c) {overloads : List CatalogFunction}
        (found : c.functions.lookup key = some overloads) :
        ∃ signature,((overloads.find? fun f => inputSignature f = signature)).isSome := by
      obtain ⟨function,inside⟩ := List.exists_mem_of_ne_nil _ (distinct.filled key overloads found)
      exact ⟨inputSignature function,List.find?_isSome.mpr ⟨function,inside,by simp⟩⟩
    cases foundA : a.functions.lookup key with
    | none =>
      cases foundB : b.functions.lookup key with
      | none => rfl
      | some others =>
        obtain ⟨signature,held⟩ := signed right foundB
        have absent := own signature
        rw [foundA,foundB] at absent
        rw [Option.getD_some] at absent
        rw [←absent] at held
        cases held
    | some overloads =>
      cases foundB : b.functions.lookup key with
      | none =>
        obtain ⟨signature,held⟩ := signed left foundA
        have absent := own signature
        rw [foundA,foundB] at absent
        rw [Option.getD_some] at absent
        rw [absent] at held
        cases held
      | some others =>
        rw [foundA,foundB] at own
        exact congrArg some (Multiset.coe_eq_coe.mpr
          (overloads_perm (left.apart key overloads foundA) (right.apart key others foundB) own))

end Scythe
