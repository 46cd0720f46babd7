import Scythe.Occurrence
import Scythe.TypeConversion

namespace Scythe

inductive QueryCommand where
  | one | opt | many | exec | execResult | execRows | batch | grouped
  deriving DecidableEq,Repr

structure PositionalParamDoc where
  position : Int
  name : String
  description : String
  deriving DecidableEq,Repr

structure JsonMapping where
  column : String
  rustType : String
  deriving DecidableEq,Repr

structure CustomAnnotation where
  name : String
  value : String
  line : Nat
  suggestedKeyword : Option String
  deriving DecidableEq,Repr

structure Annotations where
  nullableOverrides : List String
  nonnullOverrides : List String
  jsonMappings : List JsonMapping
  deprecated : Option String
  positionalParamDocs : List PositionalParamDoc
  optionalParams : List String
  groupBy : Option String
  custom : List CustomAnnotation
  deriving DecidableEq,Repr

def Annotations.empty : Annotations := ⟨[],[],[],none,[],[],none,[]⟩

-- The parsed query handed to the analyzer: its text as the author wrote it and
-- the statement that the parser read.
structure ParsedQuery where
  name : String
  command : QueryCommand
  sql : String
  stmt : Statement
  annotations : Annotations

structure AnalyzedColumn where
  name : String
  neutralType : String
  nullable : Bool
  joinGroup : Option String
  nullableBeforeJoin : Bool
  sqlType : String
  sourceRelation : Option String
  untypedLiteral : Bool
  deriving DecidableEq,Repr

structure AnalyzedParam where
  name : String
  neutralType : String
  nullable : Bool
  position : Int
  sourceRelation : Option String
  deriving DecidableEq,Repr

structure GroupByConfig where
  table : String
  keyColumn : String
  parentColumns : List AnalyzedColumn
  childColumns : List AnalyzedColumn
  deriving DecidableEq,Repr

structure CompositeFieldInfo where
  name : String
  neutralType : String
  nullable : Bool
  deriving DecidableEq,Repr

structure CompositeInfo where
  sqlName : String
  fields : List CompositeFieldInfo
  deriving DecidableEq,Repr

structure NestedFieldInfo where
  name : String
  neutralType : String
  nullable : Bool
  deriving DecidableEq,Repr

structure NestedStructInfo where
  name : String
  fields : List NestedFieldInfo
  deriving DecidableEq,Repr

structure PendingNestedStruct where
  id : Nat
  fields : List NestedFieldInfo
  deriving DecidableEq,Repr

structure EnumInfo where
  sqlName : String
  values : List String
  deriving DecidableEq,Repr

structure AnalyzedQuery where
  name : String
  command : QueryCommand
  sql : String
  columns : List AnalyzedColumn
  params : List AnalyzedParam
  deprecated : Option String
  sourceTable : Option String
  composites : List CompositeInfo
  enums : List EnumInfo
  optionalParams : List String
  groupBy : Option GroupByConfig
  custom : List CustomAnnotation
  nestedStructs : List NestedStructInfo
  deriving DecidableEq,Repr

structure ScopeColumn where
  name : String
  sqlType : String
  neutralType : String
  baseNullable : Bool
  untypedLiteral : Bool
  deriving DecidableEq,Repr

structure ScopeSource where
  aliasName : String
  tableName : String
  columns : List ScopeColumn
  nullableFromJoin : Bool
  deriving DecidableEq,Repr

structure Scope where
  sources : List ScopeSource
  deriving DecidableEq,Repr

def Scope.empty : Scope := ⟨[]⟩

structure ParamInfo where
  position : Int
  name : Option String
  neutralType : Option String
  nullable : Bool
  sourceRelation : Option String
  deriving DecidableEq,Repr

structure TypeInfo where
  neutralType : String
  nullable : Bool
  joinGroup : Option String
  nullableBeforeJoin : Bool
  sqlType : Option String
  sourceRelation : Option String
  untypedLiteral : Bool
  deriving DecidableEq,Repr

def TypeInfo.new (neutralType : String) (nullable : Bool) : TypeInfo where
  neutralType := neutralType
  nullable := nullable
  joinGroup := none
  nullableBeforeJoin := nullable
  sqlType := none
  sourceRelation := none
  untypedLiteral := false

def TypeInfo.fromScopeColumn (column : ScopeColumn) (source : ScopeSource) : TypeInfo where
  neutralType := column.neutralType
  nullable := column.baseNullable || source.nullableFromJoin
  joinGroup := if source.nullableFromJoin then some source.aliasName else none
  nullableBeforeJoin := column.baseNullable
  sqlType := some column.sqlType
  sourceRelation := some source.tableName
  untypedLiteral := column.untypedLiteral

def TypeInfo.unknown : TypeInfo := .new "unknown" true
def TypeInfo.untyped : TypeInfo := {TypeInfo.unknown with untypedLiteral:=true}

def AnalyzedColumn.fromTypeInfo (name : String) (info : TypeInfo) : AnalyzedColumn where
  name := name
  neutralType := info.neutralType
  nullable := info.nullable
  joinGroup := info.joinGroup
  nullableBeforeJoin := info.nullableBeforeJoin
  sqlType := info.sqlType.getD info.neutralType
  sourceRelation := info.sourceRelation
  untypedLiteral := info.untypedLiteral

def ScopeColumn.new (name neutralType : String) (baseNullable : Bool) : ScopeColumn :=
  ⟨name,neutralType,neutralType,baseNullable,false⟩

def ScopeColumn.fromCatalog (name sqlType neutralType : String) (baseNullable : Bool) : ScopeColumn :=
  ⟨name,sqlType,neutralType,baseNullable,false⟩

def ScopeColumn.fromAnalyzedColumn (column : AnalyzedColumn) : ScopeColumn :=
  ⟨column.name,column.sqlType,column.neutralType,column.nullable,column.untypedLiteral⟩

@[simp] theorem TypeInfo.new_neutralType : (TypeInfo.new t n).neutralType = t := rfl
@[simp] theorem TypeInfo.new_nullable : (TypeInfo.new t n).nullable = n := rfl
@[simp] theorem TypeInfo.fromScopeColumn_nullable :
    (TypeInfo.fromScopeColumn c s).nullable = (c.baseNullable || s.nullableFromJoin) := rfl
@[simp] theorem TypeInfo.fromScopeColumn_neutralType :
    (TypeInfo.fromScopeColumn c s).neutralType = c.neutralType := rfl
@[simp] theorem TypeInfo.unknown_nullable : TypeInfo.unknown.nullable = true := rfl
@[simp] theorem TypeInfo.untyped_nullable : TypeInfo.untyped.nullable = true := rfl
@[simp] theorem AnalyzedColumn.fromTypeInfo_neutralType :
    (AnalyzedColumn.fromTypeInfo n t).neutralType = t.neutralType := rfl
@[simp] theorem AnalyzedColumn.fromTypeInfo_nullable :
    (AnalyzedColumn.fromTypeInfo n t).nullable = t.nullable := rfl

end Scythe
