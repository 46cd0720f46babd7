import Scythe.Types

-- Type overrides and the columns and parameters that they are looked up for.
namespace Scythe
open Text

structure TypeOverride where
  column : Option String
  dbType : Option String
  neutralType : Option String
  deriving DecidableEq,Repr

def eqIgnoreAsciiCase (a b : String) : Bool := asciiLowercase a = asciiLowercase b

-- A column that is another one does not keep the type from being the same.
def TypeOverride.isMatch (self : TypeOverride) (columnMatch colNeutralType : String) : Bool :=
  self.column = some columnMatch || self.dbType.any fun dt => eqIgnoreAsciiCase dt colNeutralType

def findOverride (overrides : List TypeOverride) (columnMatch colNeutralType : String) : Option String :=
  overrides.findSome? fun o => if o.isMatch columnMatch colNeutralType then o.neutralType else none

def AnalyzedColumn.columnMatch (col : AnalyzedColumn) : String :=
  match col.sourceRelation with
  | some relation => relation ++ "." ++ col.name
  | none => ""

def AnalyzedParam.columnMatch (param : AnalyzedParam) (sourceTable : String) : String :=
  match param.sourceRelation with
  | some relation => relation ++ "." ++ param.name
  | none => if sourceTable = "" then "" else sourceTable ++ "." ++ param.name

def AnalyzedColumn.effectiveNeutralType (col : AnalyzedColumn) (overrides : List TypeOverride) : String :=
  (findOverride overrides col.columnMatch col.neutralType).getD col.neutralType

def AnalyzedParam.effectiveNeutralType (param : AnalyzedParam) (overrides : List TypeOverride)
    (sourceTable : String) : String :=
  (findOverride overrides (param.columnMatch sourceTable) param.neutralType).getD param.neutralType

def columnReferences (columns : List AnalyzedColumn) : List String :=
  columns.filterMap fun col => col.sourceRelation.map fun relation => relation ++ "." ++ col.name

def paramReferences (params : List AnalyzedParam) : List String :=
  params.filterMap fun param => param.sourceRelation.map fun relation => relation ++ "." ++ param.name

def unmatchedColumnOverrides (overrides : List TypeOverride) (knownReferences : List String) : List TypeOverride :=
  overrides.filter fun o => o.column.any fun c => !knownReferences.contains c

-- The overrides whose column no query of the set has.
def checkTypeOverridesResolve (analyzedQueries : List AnalyzedQuery) (overrides : List TypeOverride) :
    List TypeOverride :=
  let columns := analyzedQueries.flatMap fun query =>
    query.columns ++ query.groupBy.toList.flatMap fun group => group.parentColumns ++ group.childColumns
  let params := analyzedQueries.flatMap (·.params)
  unmatchedColumnOverrides overrides (columnReferences columns ++ paramReferences params)

end Scythe
