import Mathlib.Data.List.ReduceOption
import Scythe.Ast

namespace Scythe

-- One placeholder of the statement: the token as written and where it stands.
structure Occurrence where
  token : String
  span : Span
  deriving DecidableEq,Repr

def ValueWithSpan.placeholder? (vws : ValueWithSpan) : Option String :=
  match vws.value with
  | .placeholder token => some token
  | _ => none

def ValueWithSpan.occurrences (vws : ValueWithSpan) : List (Option Occurrence) :=
  match vws.value with
  | .placeholder token => [some ⟨token,vws.span⟩]
  | _ => []

-- One traversal of the whole tree. Every node leaves `none`, every placeholder
-- its occurrence, so that it counts the nodes and lists the placeholders.
mutual

def Expr.marks : Expr → List (Option Occurrence)
  | .identifier _ => [none]
  | .compoundIdentifier _ => [none]
  | .value vws => none :: vws.occurrences
  | .cast _ e _ => none :: e.marks
  | .function f => none :: f.marks
  | .binaryOp l _ r => none :: (l.marks ++ r.marks)
  | .unaryOp _ e => none :: e.marks
  | .nested e => none :: e.marks
  | .isNull e => none :: e.marks
  | .isNotNull e => none :: e.marks
  | .isTruth _ e => none :: e.marks
  | .inList e list _ => none :: (e.marks ++ exprMarks list)
  | .inSubquery e q _ => none :: (e.marks ++ q.marks)
  | .between e _ low high => none :: (e.marks ++ (low.marks ++ high.marks))
  | .like e _ p => none :: (e.marks ++ p.marks)
  | .iLike e _ p => none :: (e.marks ++ p.marks)
  | .case operand conditions elseResult =>
    none :: (optionMarks operand ++ (caseMarks conditions ++ optionMarks elseResult))
  | .subquery q => none :: q.marks
  | .exists q _ => none :: q.marks
  | .anyOp l _ r => none :: (l.marks ++ r.marks)
  | .allOp l _ r => none :: (l.marks ++ r.marks)
  | .array es => none :: exprMarks es
  | .tuple es => none :: exprMarks es
  | .extract e => none :: e.marks
  | .substring e bounds => none :: (e.marks ++ exprMarks bounds)
  | .trim e characters => none :: (e.marks ++ exprMarks characters)
  | .position needle haystack => none :: (needle.marks ++ haystack.marks)
  | .atTimeZone t z => none :: (t.marks ++ z.marks)
  | .typedString _ => [none]
  | .interval e => none :: e.marks
  | .compoundFieldAccess root chain => none :: (root.marks ++ accessMarks chain)
  | .ceil e => none :: e.marks
  | .floor e => none :: e.marks
  | .other es => none :: exprMarks es

def exprMarks : List Expr → List (Option Occurrence)
  | [] => []
  | e :: es => e.marks ++ exprMarks es

def optionMarks : Option Expr → List (Option Occurrence)
  | none => []
  | some e => e.marks

def rowMarks : List (List Expr) → List (Option Occurrence)
  | [] => []
  | row :: rows => exprMarks row ++ rowMarks rows

def AccessExpr.marks : AccessExpr → List (Option Occurrence)
  | .dot e => none :: e.marks
  | .subscript es => none :: exprMarks es

def accessMarks : List AccessExpr → List (Option Occurrence)
  | [] => []
  | a :: as => a.marks ++ accessMarks as

def CaseWhen.marks : CaseWhen → List (Option Occurrence)
  | ⟨condition,result⟩ => none :: (condition.marks ++ result.marks)

def caseMarks : List CaseWhen → List (Option Occurrence)
  | [] => []
  | c :: cs => c.marks ++ caseMarks cs

def FunctionArgExpr.marks : FunctionArgExpr → List (Option Occurrence)
  | .expr e => none :: e.marks
  | .qualifiedWildcard _ => [none]
  | .wildcard => [none]

def FunctionArg.marks : FunctionArg → List (Option Occurrence)
  | .named _ arg => none :: arg.marks
  | .exprNamed name arg => none :: (name.marks ++ arg.marks)
  | .unnamed arg => none :: arg.marks

def argMarks : List FunctionArg → List (Option Occurrence)
  | [] => []
  | a :: as => a.marks ++ argMarks as

def optionArgMarks : Option (List FunctionArg) → List (Option Occurrence)
  | none => []
  | some args => argMarks args

def FunctionArguments.marks : FunctionArguments → List (Option Occurrence)
  | .none => [none]
  | .subquery q => none :: q.marks
  | .list args _ unread => none :: (argMarks args ++ exprMarks unread)

def Function.marks : Function → List (Option Occurrence)
  | ⟨_,args,filter,_,overWindow,unread⟩ =>
    none :: (args.marks ++ (optionMarks filter ++ (overMarks overWindow ++ exprMarks unread)))

def overMarks : Option (List Expr) → List (Option Occurrence)
  | none => []
  | some es => exprMarks es

def Cte.marks : Cte → List (Option Occurrence)
  | ⟨_,q⟩ => none :: q.marks

def cteMarks : List Cte → List (Option Occurrence)
  | [] => []
  | c :: cs => c.marks ++ cteMarks cs

def With.marks : With → List (Option Occurrence)
  | ⟨_,ctes⟩ => none :: cteMarks ctes

def withMarks : Option With → List (Option Occurrence)
  | none => []
  | some w => w.marks

def LimitClause.marks : LimitClause → List (Option Occurrence)
  | .limitOffset limit offset unread => none :: (optionMarks limit ++ (optionMarks offset ++ exprMarks unread))
  | .offsetCommaLimit offset limit => none :: (offset.marks ++ limit.marks)

def limitMarks : Option LimitClause → List (Option Occurrence)
  | none => []
  | some l => l.marks

def Query.marks : Query → List (Option Occurrence)
  | ⟨withClause,body,orderBy,limitClause,unread⟩ =>
    none :: (withMarks withClause ++ (body.marks ++ (exprMarks orderBy ++ (limitMarks limitClause ++ exprMarks unread))))

def SetExpr.marks : SetExpr → List (Option Occurrence)
  | .select s => none :: s.marks
  | .query q => none :: q.marks
  | .setOperation _ l r => none :: (l.marks ++ r.marks)
  | .values rows => none :: rowMarks rows
  | .other es => none :: exprMarks es

def GroupByExpr.marks : GroupByExpr → List (Option Occurrence)
  | .all => [none]
  | .expressions es => none :: exprMarks es

def WildcardKind.marks : WildcardKind → List (Option Occurrence)
  | .objectName _ => [none]
  | .expr e => none :: e.marks

def SelectItem.marks : SelectItem → List (Option Occurrence)
  | .unnamedExpr e => none :: e.marks
  | .exprWithAlias e _ => none :: e.marks
  | .exprWithAliases e _ => none :: e.marks
  | .wildcard _ unread => none :: exprMarks unread
  | .qualifiedWildcard kind _ unread => none :: (kind.marks ++ exprMarks unread)

def itemMarks : List SelectItem → List (Option Occurrence)
  | [] => []
  | i :: is => i.marks ++ itemMarks is

def Select.marks : Select → List (Option Occurrence)
  | ⟨projection,sources,selection,groupBy,having,unread⟩ =>
    none :: (itemMarks projection ++ (tableMarks sources ++
      (optionMarks selection ++ (groupBy.marks ++ (optionMarks having ++ exprMarks unread)))))

def TableWithJoins.marks : TableWithJoins → List (Option Occurrence)
  | ⟨relation,joins⟩ => none :: (relation.marks ++ joinMarks joins)

def tableMarks : List TableWithJoins → List (Option Occurrence)
  | [] => []
  | t :: ts => t.marks ++ tableMarks ts

def Join.marks : Join → List (Option Occurrence)
  | ⟨relation,_,condition⟩ => none :: (relation.marks ++ optionMarks condition)

def joinMarks : List Join → List (Option Occurrence)
  | [] => []
  | j :: js => j.marks ++ joinMarks js

def TableFactor.marks : TableFactor → List (Option Occurrence)
  | .table _ _ args unread => none :: (optionArgMarks args ++ exprMarks unread)
  | .derived q _ => none :: q.marks
  | .nestedJoin t _ => none :: t.marks
  | .tableFunction e _ => none :: e.marks
  | .unnest es _ => none :: exprMarks es
  | .function _ args _ => none :: argMarks args
  | .other es => none :: exprMarks es

end

attribute [simp] Expr.marks exprMarks optionMarks rowMarks CaseWhen.marks caseMarks FunctionArgExpr.marks
  FunctionArg.marks argMarks optionArgMarks FunctionArguments.marks Function.marks Cte.marks cteMarks With.marks
  withMarks LimitClause.marks limitMarks Query.marks SetExpr.marks SelectItem.marks itemMarks Select.marks
  TableWithJoins.marks tableMarks Join.marks joinMarks TableFactor.marks

def assignmentMarks (assignments : List Assignment) : List (Option Occurrence) :=
  assignments.flatMap fun a => none :: a.value.marks

def returningMarks (returning : Option (List SelectItem)) : List (Option Occurrence) :=
  itemMarks (returning.getD [])

def TableObject.marks : TableObject → List (Option Occurrence)
  | .tableName _ => [none]
  | .tableFunction _ unread => none :: exprMarks unread
  | .tableQuery q => none :: q.marks

def OnInsert.marks : OnInsert → List (Option Occurrence)
  | .duplicateKeyUpdate assignments => none :: assignmentMarks assignments
  | .onConflict .doNothing => [none]
  | .onConflict (.doUpdate d) => none :: (assignmentMarks d.assignments ++ optionMarks d.selection)

def Insert.marks (insert : Insert) : List (Option Occurrence) :=
  none :: (insert.table.marks ++ ((insert.source.map Query.marks).getD [] ++
    (assignmentMarks insert.assignments ++
      ((insert.on.map OnInsert.marks).getD [] ++ returningMarks insert.returning))))

def Update.marks (update : Update) : List (Option Occurrence) :=
  none :: (update.table.marks ++ (assignmentMarks update.assignments ++
    (tableMarks (update.sources.getD []) ++
      (optionMarks update.selection ++ (returningMarks update.returning ++ exprMarks update.unread)))))

def Delete.marks (delete : Delete) : List (Option Occurrence) :=
  none :: (tableMarks delete.sources ++ (tableMarks (delete.usingTables.getD []) ++
    (optionMarks delete.selection ++ (returningMarks delete.returning ++ exprMarks delete.unread))))

def Statement.marks : Statement → List (Option Occurrence)
  | .query q => q.marks
  | .insert statement => statement.marks
  | .update statement => statement.marks
  | .delete statement => statement.marks
  | .other => []

def Expr.occurrences (e : Expr) : List Occurrence := e.marks.reduceOption
def Query.occurrences (q : Query) : List Occurrence := q.marks.reduceOption

-- Every placeholder of the statement, in the order of its syntax tree.
def Statement.occurrences (stmt : Statement) : List Occurrence := stmt.marks.reduceOption

end Scythe
