import Mathlib.Data.List.AList
import Scythe.Ast

namespace Scythe
open Text

abbrev AHashMap (α : Type) := AList fun _ : String => α

inductive FunctionArgumentMode where
  | in
  | out
  | inOut
  | variadic
  deriving DecidableEq,Repr

structure FunctionArgument where
  name : Option String
  sqlType : String
  mode : FunctionArgumentMode
  hasDefault : Bool
  deriving DecidableEq,Repr

structure FunctionResultColumn where
  name : String
  sqlType : String
  nullable : Bool
  deriving DecidableEq,Repr

inductive FunctionReturn where
  | scalar (sqlType : String)
  | setOf (sqlType : String)
  | table (columns : List FunctionResultColumn)
  deriving DecidableEq,Repr

structure CatalogFunction where
  arguments : List FunctionArgument
  returnType : FunctionReturn
  deriving DecidableEq,Repr

structure DomainDef where
  baseType : String
  notNull : Bool
  deriving DecidableEq,Repr

structure Column where
  name : String
  sqlType : String
  nullable : Bool
  default : Option String
  primaryKey : Bool
  deriving DecidableEq,Repr

structure Table where
  columns : List Column
  rawName : String
  deriving DecidableEq,Repr

structure EnumType where
  values : List String
  deriving DecidableEq,Repr

structure CompositeField where
  name : String
  sqlType : String
  nullable : Bool
  deriving DecidableEq,Repr

structure CompositeType where
  fields : List CompositeField
  deriving DecidableEq,Repr

structure Catalog where
  tables : AHashMap Table
  enums : AHashMap EnumType
  composites : AHashMap CompositeType
  functions : AHashMap (List CatalogFunction)
  domains : AHashMap DomainDef
  dialect : SqlDialect
  engine : Option String
  searchPath : Option (List String)
  rawColumnTypes : AHashMap (AHashMap String)

def Catalog.new (dialect : SqlDialect) : Catalog where
  tables := ∅
  enums := ∅
  composites := ∅
  functions := ∅
  domains := ∅
  dialect := dialect
  engine := none
  searchPath := none
  rawColumnTypes := ∅

def smallest : List String → Option String
  | [] => none
  | key :: keys =>
    match smallest keys with
    | none => some key
    | some other => some (if other < key then other else key)

theorem smallest_none {keys : List String} (none' : smallest keys = none) : keys = [] := by
  cases keys with
  | nil => rfl
  | cons key keys =>
    rw [smallest] at none'
    split at none' <;> cases none'

theorem smallest_least {keys : List String} {key : String} (least : smallest keys = some key) :
    key ∈ keys ∧ ∀ other ∈ keys,key ≤ other := by
  induction keys generalizing key with
  | nil => cases least
  | cons first keys ih =>
    rw [smallest] at least
    split at least
    · rename_i none'
      cases least
      rw [smallest_none none']
      refine ⟨List.mem_singleton_self _,?_⟩
      intro other member
      have same := List.mem_singleton.mp member
      subst same
      exact String.le_refl _
    · rename_i best is
      obtain ⟨inside,below⟩ := ih is
      split at least
      · rename_i less
        cases least
        refine ⟨List.mem_cons_of_mem _ inside,?_⟩
        intro other member
        rcases List.mem_cons.mp member with rfl | later
        · exact String.not_lt.mp (String.lt_asymm less)
        · exact below other later
      · rename_i notLess
        cases least
        refine ⟨List.mem_cons_self,?_⟩
        intro other member
        rcases List.mem_cons.mp member with rfl | later
        · exact String.le_refl _
        · exact String.le_trans (String.not_lt.mp notLess) (below other later)

theorem smallest_perm {keys others : List String} (perm : keys.Perm others) : smallest keys = smallest others := by
  cases left : smallest keys with
  | none =>
    rw [smallest_none left] at perm
    rw [← perm.nil_eq]
    rfl
  | some key =>
    cases right : smallest others with
    | none =>
      rw [smallest_none right] at perm
      rw [perm.eq_nil] at left
      cases left
    | some other =>
      obtain ⟨inside,below⟩ := smallest_least left
      obtain ⟨insideOther,belowOther⟩ := smallest_least right
      rw [String.le_antisymm (below _ (perm.mem_iff.mpr insideOther)) (belowOther _ (perm.mem_iff.mp inside))]

-- The smallest key of the map that ends with the suffix.
def suffixKey (keys : List String) (suffix : String) : Option String :=
  smallest (keys.filter fun key => endsWith key suffix)

theorem suffixKey_mem {keys : List String} {suffix key : String} (found : suffixKey keys suffix = some key) :
    key ∈ keys ∧ endsWith key suffix :=
  List.mem_filter.mp (smallest_least found).1

-- An unqualified name also matches an entry under any single qualifier; a
-- qualified name matches only an entry registered under that qualifier.
def lookupQualified [CaseMap] (map : AHashMap α) (name : String) (searchPath : Option (List String)) : Option α :=
  let lower := CaseMap.lowercase name
  match map.lookup lower with
  | some value => some value
  | none =>
    if contains lower "." then none else
    match searchPath with
    | some schemas => schemas.findSome? fun schema => map.lookup (schema ++ "." ++ lower)
    | none => (suffixKey map.keys ("." ++ lower)).bind map.lookup

section
variable [CaseMap]

-- The key of the entry that a lookup of the name returns.
def resolvedKey (map : AHashMap α) (name : String) (searchPath : Option (List String)) : Option String :=
  let lower := CaseMap.lowercase name
  if lower ∈ map then some lower else
  if contains lower "." then none else
  match searchPath with
  | some schemas => (schemas.map fun schema => schema ++ "." ++ lower).find? fun key => key ∈ map
  | none => suffixKey map.keys ("." ++ lower)

theorem lookupQualified_key (map : AHashMap α) (name : String) (path : Option (List String)) :
    lookupQualified map name path = (resolvedKey map name path).bind map.lookup := by
  unfold lookupQualified resolvedKey
  dsimp only
  cases found : map.lookup (CaseMap.lowercase name) with
  | some value =>
    rw [if_pos (AList.lookup_isSome.mp (Option.isSome_of_eq_some found)),Option.bind_some,found]
  | none =>
    rw [if_neg (AList.lookup_eq_none.mp found)]
    dsimp only
    split
    · rfl
    · cases path with
      | none => rfl
      | some schemas =>
        induction schemas with
        | nil => rfl
        | cons schema schemas ih =>
          simp only [List.findSome?_cons,List.map_cons,List.find?_cons]
          cases held : map.lookup (schema ++ "." ++ CaseMap.lowercase name) with
          | some value =>
            rw [decide_eq_true (AList.lookup_isSome.mp (Option.isSome_of_eq_some held)),Option.bind_some,held]
          | none =>
            rw [decide_eq_false (AList.lookup_eq_none.mp held)]
            exact ih

theorem resolvedKey_registered {map : AHashMap α} {text key : String} {path : Option (List String)}
    (resolved : resolvedKey map text path = some key) : key ∈ map := by
  unfold resolvedKey at resolved
  dsimp only at resolved
  split at resolved
  · cases resolved
    assumption
  · split at resolved
    · cases resolved
    · split at resolved
      · simpa using List.find?_some resolved
      · exact AList.mem_keys.mpr (suffixKey_mem resolved).1

end

namespace Catalog

variable [CaseMap]

def getTable (catalog : Catalog) (name : String) : Option Table :=
  lookupQualified catalog.tables name catalog.searchPath

def getEnum (catalog : Catalog) (name : String) : Option EnumType :=
  lookupQualified catalog.enums name catalog.searchPath

def getDomainBaseType (catalog : Catalog) (name : String) : Option String :=
  (lookupQualified catalog.domains name catalog.searchPath).map (·.baseType)

def getComposite (catalog : Catalog) (name : String) : Option CompositeType :=
  lookupQualified catalog.composites name catalog.searchPath

def getFunctions (catalog : Catalog) (name : String) : Option (List CatalogFunction) :=
  lookupQualified catalog.functions name catalog.searchPath

def columnRawSqlType (catalog : Catalog) (relation column : String) : Option String :=
  (lookupQualified catalog.rawColumnTypes relation catalog.searchPath).bind fun types =>
    types.lookup (CaseMap.lowercase column)

end Catalog

def identToLower [CaseMap] (ident : Ident) : String :=
  if ident.quoted then ident.value else CaseMap.lowercase ident.value

def objectNameToKey [CaseMap] (name : ObjectName) : String :=
  join "." (name.map fun part => match part with
    | .identifier ident => CaseMap.lowercase ident.value
    | .function => "")

def objectNameToRawName [CaseMap] (name : ObjectName) : String :=
  (name.reverse.findSome? fun part => match part with
    | .identifier ident => some (identToLower ident)
    | .function => none).getD ""

def bareName (key : String) : String :=
  match rsplitOnce key '.' with
  | some (_,name) => name
  | none => key

end Scythe
