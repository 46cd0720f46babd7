import Scythe.Ast
import Scythe.Lib.TreeWalk

-- The syntax tree of a statement: the parts of each node, and what each is to it.
namespace Scythe
open TreeWalk

inductive SyntaxNode where
  | statement (statement : Statement)
  | query (query : Query)
  | scope (query : Query)
  | body (body : SetExpr)
  | select (select : Select)
  | tables (tables : TableWithJoins)
  | factor (factor : TableFactor)
  | expr (expr : Expr)

inductive SyntaxStep where
  -- of an expression
  | cast | argument | namedArgument | exprNamedArgument | argumentName | argumentClause | argumentQuery
  | filter | window | functionClause | binary | unary | nested | isNull | isNotNull | isTruth
  | inListOperand | inListItem | inSubqueryOperand | inSubquery | between | like | iLike
  | caseOperand | caseCondition | caseResult | caseElse | subquery | exists | anyOp | allOp
  | array | tuple | extract | substring | trim | position | atTimeZone | interval
  | accessRoot | accessDot | accessIndex | ceil | floor | other
  -- of a query: its body stands in the scope of its common tables
  | cte (names : List Ident) | scope (names : List Ident) | body | orderBy | limit | queryClause
  | selectBody | innerQuery | arm | values | bodyClause
  | projection | projectionAliases | wildcard | selection | having | source | groupBy | selectClause
  | relation | joined (op : JoinOperator) | joinOn (op : JoinOperator)
  | tableArgument | tableClause | derived | nestedJoin | tableFunction | unnest | otherTable
  -- of a statement
  | statementQuery | insertTable | insertSource | assignment | conflictSelection | returning
  | updateTable | updateSource | updateSelection | deleteSource | deleteUsing | deleteSelection | statementClause
  deriving DecidableEq

abbrev SyntaxParts := List (SyntaxStep × SyntaxNode)

def exprParts (step : SyntaxStep) (exprs : List Expr) : SyntaxParts := exprs.map fun e => (step,.expr e)

-- SyntaxParts that all stand behind one step.
def relabel (step : SyntaxStep) (parts : SyntaxParts) : SyntaxParts := parts.map fun part => (step,part.2)

def AccessExpr.parts : AccessExpr → SyntaxParts
  | .dot e => [(.accessDot,.expr e)]
  | .subscript indices => exprParts .accessIndex indices

def CaseWhen.parts (arm : CaseWhen) : SyntaxParts := [(.caseCondition,.expr arm.condition),(.caseResult,.expr arm.result)]

def FunctionArgExpr.parts (step : SyntaxStep) : FunctionArgExpr → SyntaxParts
  | .expr e => [(step,.expr e)]
  | _ => []

def FunctionArg.parts : FunctionArg → SyntaxParts
  | .named _ arg => arg.parts .namedArgument
  | .exprNamed name arg => (.argumentName,.expr name) :: arg.parts .exprNamedArgument
  | .unnamed arg => arg.parts .argument

def FunctionArguments.parts : FunctionArguments → SyntaxParts
  | .none => []
  | .subquery query => [(.argumentQuery,.query query)]
  | .list args _ unread => args.flatMap FunctionArg.parts ++ exprParts .argumentClause unread

def Function.parts (f : Function) : SyntaxParts :=
  f.args.parts ++ (exprParts .filter f.filter.toList ++
    (exprParts .window (f.overWindow.getD []) ++ exprParts .functionClause f.unread))

def Expr.parts : Expr → SyntaxParts
  | .identifier .. | .compoundIdentifier .. | .value .. | .typedString .. => []
  | .cast _ e _ => [(.cast,.expr e)]
  | .function f => f.parts
  | .binaryOp l _ r => [(.binary,.expr l),(.binary,.expr r)]
  | .unaryOp _ e => [(.unary,.expr e)]
  | .nested e => [(.nested,.expr e)]
  | .isNull e => [(.isNull,.expr e)]
  | .isNotNull e => [(.isNotNull,.expr e)]
  | .isTruth _ e => [(.isTruth,.expr e)]
  | .inList e list _ => (.inListOperand,.expr e) :: exprParts .inListItem list
  | .inSubquery e query _ => [(.inSubqueryOperand,.expr e),(.inSubquery,.query query)]
  | .between e _ low high => [(.between,.expr e),(.between,.expr low),(.between,.expr high)]
  | .like e _ pattern => [(.like,.expr e),(.like,.expr pattern)]
  | .iLike e _ pattern => [(.iLike,.expr e),(.iLike,.expr pattern)]
  | .case operand conditions elseResult =>
    exprParts .caseOperand operand.toList ++
      (conditions.flatMap CaseWhen.parts ++ exprParts .caseElse elseResult.toList)
  | .subquery query => [(.subquery,.query query)]
  | .exists query _ => [(.exists,.query query)]
  | .anyOp l _ r => [(.anyOp,.expr l),(.anyOp,.expr r)]
  | .allOp l _ r => [(.allOp,.expr l),(.allOp,.expr r)]
  | .array elem => exprParts .array elem
  | .tuple exprs => exprParts .tuple exprs
  | .extract e => [(.extract,.expr e)]
  | .substring e bounds => (.substring,.expr e) :: exprParts .substring bounds
  | .trim e characters => (.trim,.expr e) :: exprParts .trim characters
  | .position needle haystack => [(.position,.expr needle),(.position,.expr haystack)]
  | .atTimeZone timestamp timeZone => [(.atTimeZone,.expr timestamp),(.atTimeZone,.expr timeZone)]
  | .interval e => [(.interval,.expr e)]
  | .compoundFieldAccess root chain => (.accessRoot,.expr root) :: chain.flatMap AccessExpr.parts
  | .ceil e => [(.ceil,.expr e)]
  | .floor e => [(.floor,.expr e)]
  | .other children => exprParts .other children

def With.names (w : With) : List Ident := w.cteTables.map fun cte => cte.tableAlias.name

-- A common table stands in the scope of those before it, and of all where they are recursive.
def cteParts (recursive : Bool) (all before : List Ident) : List Cte → SyntaxParts
  | [] => []
  | cte :: ctes =>
    (.cte (if recursive then all else before),.query cte.query) ::
      cteParts recursive all (before ++ [cte.tableAlias.name]) ctes

def LimitClause.parts : LimitClause → SyntaxParts
  | .limitOffset limit offset unread =>
    exprParts .limit limit.toList ++ (exprParts .limit offset.toList ++ exprParts .limit unread)
  | .offsetCommaLimit offset limit => [(.limit,.expr offset),(.limit,.expr limit)]

def With.parts (w : With) : SyntaxParts := cteParts w.recursive w.names [] w.cteTables

def Query.names (q : Query) : List Ident := (q.withClause.map With.names).getD []

def Query.parts (q : Query) : SyntaxParts := q.withClause.toList.flatMap With.parts ++ [(.scope q.names,.scope q)]

def Query.scopeParts (q : Query) : SyntaxParts :=
  (.body,.body q.body) :: (exprParts .orderBy q.orderBy ++
    (q.limitClause.toList.flatMap LimitClause.parts ++ exprParts .queryClause q.unread))

def SetExpr.parts : SetExpr → SyntaxParts
  | .select s => [(.selectBody,.select s)]
  | .query q => [(.innerQuery,.query q)]
  | .setOperation _ l r => [(.arm,.body l),(.arm,.body r)]
  | .values rows => rows.flatMap (exprParts .values)
  | .other unread => exprParts .bodyClause unread

def WildcardKind.parts : WildcardKind → SyntaxParts
  | .objectName _ => []
  | .expr e => [(.wildcard,.expr e)]

def SelectItem.parts : SelectItem → SyntaxParts
  | .unnamedExpr e => [(.projection,.expr e)]
  | .exprWithAlias e _ => [(.projection,.expr e)]
  | .exprWithAliases e _ => [(.projectionAliases,.expr e)]
  | .wildcard _ unread => exprParts .wildcard unread
  | .qualifiedWildcard kind _ unread => kind.parts ++ exprParts .wildcard unread

def GroupByExpr.parts : GroupByExpr → SyntaxParts
  | .all => []
  | .expressions exprs => exprParts .groupBy exprs

def Select.parts (s : Select) : SyntaxParts :=
  s.projection.flatMap SelectItem.parts ++ (exprParts .selection s.selection.toList ++
    (exprParts .having s.having.toList ++ (s.sources.map (fun tables => (.source,.tables tables)) ++
      (s.groupBy.parts ++ exprParts .selectClause s.unread))))

def Join.parts (j : Join) : SyntaxParts :=
  (.joined j.joinOperator,.factor j.relation) :: exprParts (.joinOn j.joinOperator) j.condition.toList

def TableWithJoins.parts (t : TableWithJoins) : SyntaxParts := (.relation,.factor t.relation) :: t.joins.flatMap Join.parts

def TableFactor.parts : TableFactor → SyntaxParts
  | .table _ _ args unread =>
    relabel .tableArgument ((args.getD []).flatMap FunctionArg.parts) ++ exprParts .tableClause unread
  | .derived subquery _ => [(.derived,.query subquery)]
  | .nestedJoin tables _ => [(.nestedJoin,.tables tables)]
  | .tableFunction e _ => [(.tableFunction,.expr e)]
  | .unnest exprs _ => exprParts .unnest exprs
  | .function _ args _ => relabel .tableArgument (args.flatMap FunctionArg.parts)
  | .other unread => exprParts .otherTable unread

def assignmentParts (assignments : List Assignment) : SyntaxParts := assignments.map fun a => (.assignment,.expr a.value)

def TableObject.parts : TableObject → SyntaxParts
  | .tableName _ => []
  | .tableFunction _ unread => exprParts .insertTable unread
  | .tableQuery query => [(.insertTable,.query query)]

def OnInsert.parts : OnInsert → SyntaxParts
  | .duplicateKeyUpdate assignments => assignmentParts assignments
  | .onConflict .doNothing => []
  | .onConflict (.doUpdate d) => assignmentParts d.assignments ++ exprParts .conflictSelection d.selection.toList

def returningParts (returning : Option (List SelectItem)) : SyntaxParts :=
  relabel .returning ((returning.getD []).flatMap SelectItem.parts)

def Insert.parts (i : Insert) : SyntaxParts :=
  i.table.parts ++ (i.source.toList.map (fun query => (.insertSource,.query query)) ++
    (assignmentParts i.assignments ++ (i.on.toList.flatMap OnInsert.parts ++ returningParts i.returning)))

def Update.parts (u : Update) : SyntaxParts :=
  (.updateTable,.tables u.table) :: (assignmentParts u.assignments ++
    ((u.sources.getD []).map (fun tables => (.updateSource,.tables tables)) ++
      (exprParts .updateSelection u.selection.toList ++
        (returningParts u.returning ++ exprParts .statementClause u.unread))))

def Delete.parts (d : Delete) : SyntaxParts :=
  d.sources.map (fun tables => (.deleteSource,.tables tables)) ++
    ((d.usingTables.getD []).map (fun tables => (.deleteUsing,.tables tables)) ++
      (exprParts .deleteSelection d.selection.toList ++
        (returningParts d.returning ++ exprParts .statementClause d.unread)))

def Statement.parts : Statement → SyntaxParts
  | .query q => [(.statementQuery,.query q)]
  | .insert i => i.parts
  | .update u => u.parts
  | .delete d => d.parts
  | .other => []

def SyntaxNode.parts : SyntaxNode → SyntaxParts
  | .statement s => s.parts
  | .query q => q.parts
  | .scope q => q.scopeParts
  | .body b => b.parts
  | .select s => s.parts
  | .tables t => t.parts
  | .factor f => f.parts
  | .expr e => e.parts

-- A query stands above the scope that its common tables give it.
noncomputable def SyntaxNode.size : SyntaxNode → Nat
  | .statement s => 2 * sizeOf s
  | .query q => 2 * sizeOf q + 1
  | .scope q => 2 * sizeOf q
  | .body b => 2 * sizeOf b
  | .select s => 2 * sizeOf s
  | .tables t => 2 * sizeOf t
  | .factor f => 2 * sizeOf f
  | .expr e => 2 * sizeOf e

section Sizes

def Below (n : Nat) (parts : SyntaxParts) : Prop := ∀ part ∈ parts,part.2.size < 2 * n

variable {n : Nat}

theorem below_nil : Below n [] := fun _ absent => absurd absent List.not_mem_nil

theorem below_cons {part : SyntaxStep × SyntaxNode} {parts : SyntaxParts} : Below n (part :: parts) ↔ part.2.size < 2 * n ∧ Below n parts :=
  List.forall_mem_cons

theorem below_append {front back : SyntaxParts} : Below n (front ++ back) ↔ Below n front ∧ Below n back :=
  List.forall_mem_append

theorem below_flatMap {β : Type} {items : List β} {f : β → SyntaxParts} :
    Below n (items.flatMap f) ↔ ∀ item ∈ items,Below n (f item) := by
  constructor
  · intro below item member part inside
    exact below part (List.mem_flatMap.mpr ⟨item,member,inside⟩)
  · intro each part inside
    obtain ⟨item,member,inside⟩ := List.mem_flatMap.mp inside
    exact each item member part inside

theorem below_exprs {step : SyntaxStep} {exprs : List Expr} : Below n (exprParts step exprs) ↔ ∀ e ∈ exprs,sizeOf e < n := by
  unfold exprParts Below
  rw [List.forall_mem_map]
  refine forall₂_congr fun e _ => ?_
  change 2 * sizeOf e < 2 * n ↔ _
  omega

theorem below_list {step : SyntaxStep} {exprs : List Expr} (small : sizeOf exprs ≤ n) : Below n (exprParts step exprs) :=
  below_exprs.mpr fun _ member => Nat.lt_of_lt_of_le (List.sizeOf_lt_of_mem member) small

theorem below_relabel {step : SyntaxStep} {parts : SyntaxParts} : Below n (relabel step parts) ↔ Below n parts :=
  List.forall_mem_map

theorem below_one {step : SyntaxStep} {e : Expr} : Below n [(step,.expr e)] ↔ sizeOf e < n :=
  below_exprs.trans List.forall_mem_singleton

theorem below_given {step : SyntaxStep} {e : Option Expr} (small : sizeOf e ≤ n) : Below n (exprParts step e.toList) := by
  cases e with
  | none => exact below_nil
  | some e =>
    refine below_one.mpr ?_
    simp only [Option.some.sizeOf_spec] at small
    omega

theorem below_mono {m : Nat} {parts : SyntaxParts} (below : Below m parts) (less : m ≤ n) : Below n parts :=
  fun part member => Nat.lt_of_lt_of_le (below part member) (by omega)

theorem below_each {β : Type} [SizeOf β] {items : List β} {f : β → SyntaxParts} (each : ∀ item,Below (sizeOf item) (f item))
    (small : sizeOf items ≤ n) : Below n (items.flatMap f) := by
  refine below_flatMap.mpr fun item member => below_mono (each item) ?_
  have less := List.sizeOf_lt_of_mem member
  omega

theorem accessExpr_below (access : AccessExpr) : Below (sizeOf access) access.parts := by
  cases access with
  | dot e => exact below_one.mpr (by simp)
  | subscript indices => exact below_list (by simp)

theorem caseWhen_below (arm : CaseWhen) : Below (sizeOf arm) arm.parts := by
  obtain ⟨condition,result⟩ := arm
  refine below_cons.mpr ⟨?_,below_one.mpr (by simp)⟩
  simp only [SyntaxNode.size,CaseWhen.mk.sizeOf_spec]
  omega

theorem argExpr_below (step : SyntaxStep) (arg : FunctionArgExpr) : Below (sizeOf arg) (arg.parts step) := by
  cases arg with
  | expr e => exact below_one.mpr (by simp)
  | qualifiedWildcard name => exact below_nil
  | wildcard => exact below_nil

theorem arg_below (arg : FunctionArg) : Below (sizeOf arg) arg.parts := by
  cases arg with
  | named name arg => exact below_mono (argExpr_below _ arg) (by simp)
  | exprNamed name arg =>
    refine below_cons.mpr ⟨?_,below_mono (argExpr_below _ arg) (by simp)⟩
    simp only [SyntaxNode.size,FunctionArg.exprNamed.sizeOf_spec]
    omega
  | unnamed arg => exact below_mono (argExpr_below _ arg) (by simp)

theorem arguments_below (args : FunctionArguments) : Below (sizeOf args) args.parts := by
  cases args with
  | none => exact below_nil
  | subquery query =>
    refine below_cons.mpr ⟨?_,below_nil⟩
    simp only [SyntaxNode.size,FunctionArguments.subquery.sizeOf_spec]
    omega
  | list args clause unread =>
    refine below_append.mpr ⟨below_each arg_below ?_,below_list ?_⟩
    all_goals
      simp only [FunctionArguments.list.sizeOf_spec]
      omega

theorem function_below (f : Function) : Below (sizeOf f) f.parts := by
  obtain ⟨name,args,filter,nullTreatment,overWindow,unread⟩ := f
  refine below_append.mpr ⟨below_mono (arguments_below args) ?_,below_append.mpr ⟨below_given ?_,
    below_append.mpr ⟨?_,below_list ?_⟩⟩⟩
  · simp only [Function.mk.sizeOf_spec]
    omega
  · simp only [Function.mk.sizeOf_spec]
    omega
  · cases overWindow with
    | none => exact below_nil
    | some exprs =>
      refine below_list ?_
      simp only [Option.getD_some,Function.mk.sizeOf_spec,Option.some.sizeOf_spec]
      omega
  · simp only [Function.mk.sizeOf_spec]
    omega

theorem expr_below (e : Expr) : Below (sizeOf e) e.parts := by
  cases e with
  | function f => exact below_mono (function_below f) (by simp)
  | inList e list negated =>
    refine below_cons.mpr ⟨?_,below_list ?_⟩
    all_goals
      simp only [SyntaxNode.size,Expr.inList.sizeOf_spec]
      omega
  | case operand conditions elseResult =>
    refine below_append.mpr ⟨below_given ?_,below_append.mpr ⟨below_each caseWhen_below ?_,below_given ?_⟩⟩
    all_goals
      simp only [Expr.case.sizeOf_spec]
      omega
  | array elem => exact below_list (by simp)
  | tuple exprs => exact below_list (by simp)
  | substring e bounds =>
    refine below_cons.mpr ⟨?_,below_list (by simp)⟩
    simp only [SyntaxNode.size,Expr.substring.sizeOf_spec]
    omega
  | trim e characters =>
    refine below_cons.mpr ⟨?_,below_list (by simp)⟩
    simp only [SyntaxNode.size,Expr.trim.sizeOf_spec]
    omega
  | compoundFieldAccess root chain =>
    refine below_cons.mpr ⟨?_,below_each accessExpr_below (by simp)⟩
    simp only [SyntaxNode.size,Expr.compoundFieldAccess.sizeOf_spec]
    omega
  | other children => exact below_list (by simp)
  | _ =>
    simp only [Expr.parts,below_cons,below_nil,and_true,SyntaxNode.size,Expr.cast.sizeOf_spec,Expr.binaryOp.sizeOf_spec,
      Expr.unaryOp.sizeOf_spec,Expr.nested.sizeOf_spec,Expr.isNull.sizeOf_spec,Expr.isNotNull.sizeOf_spec,
      Expr.isTruth.sizeOf_spec,Expr.inSubquery.sizeOf_spec,Expr.between.sizeOf_spec,Expr.like.sizeOf_spec,
      Expr.iLike.sizeOf_spec,Expr.subquery.sizeOf_spec,Expr.exists.sizeOf_spec,Expr.anyOp.sizeOf_spec,
      Expr.allOp.sizeOf_spec,Expr.extract.sizeOf_spec,Expr.position.sizeOf_spec,Expr.atTimeZone.sizeOf_spec,
      Expr.interval.sizeOf_spec,Expr.ceil.sizeOf_spec,Expr.floor.sizeOf_spec]
    try omega

theorem cteParts_below (recursive : Bool) (all before : List Ident) (ctes : List Cte) :
    Below (sizeOf ctes) (cteParts recursive all before ctes) := by
  induction ctes generalizing before with
  | nil => exact below_nil
  | cons cte ctes ih =>
    obtain ⟨tableAlias,query⟩ := cte
    refine below_cons.mpr ⟨?_,below_mono (ih _) ?_⟩
    all_goals
      simp only [SyntaxNode.size,List.cons.sizeOf_spec,Cte.mk.sizeOf_spec]
      omega

theorem with_below (w : With) : Below (sizeOf w) w.parts := by
  obtain ⟨recursive,ctes⟩ := w
  refine below_mono (cteParts_below _ _ _ ctes) ?_
  simp only [With.mk.sizeOf_spec]
  omega

theorem below_optional {β : Type} [SizeOf β] {item : Option β} {f : β → SyntaxParts} (each : ∀ item,Below (sizeOf item) (f item))
    (small : sizeOf item ≤ n) : Below n (item.toList.flatMap f) := by
  cases item with
  | none => exact below_nil
  | some item =>
    refine below_flatMap.mpr fun other member => ?_
    cases List.mem_singleton.mp member
    refine below_mono (each item) ?_
    simp only [Option.some.sizeOf_spec] at small
    omega

theorem query_below (q : Query) : ∀ part ∈ q.parts,part.2.size < 2 * sizeOf q + 1 := by
  intro part member
  rcases List.mem_append.mp member with common | own
  · have below : Below (sizeOf q) (q.withClause.toList.flatMap With.parts) := by
      refine below_optional with_below ?_
      obtain ⟨withClause,body,orderBy,limitClause,unread⟩ := q
      simp only [Query.mk.sizeOf_spec]
      omega
    exact Nat.lt_succ_of_lt (below part common)
  · cases List.mem_singleton.mp own
    exact Nat.lt_succ_self _

theorem limit_below (limit : LimitClause) : Below (sizeOf limit) limit.parts := by
  cases limit with
  | limitOffset limit offset unread =>
    refine below_append.mpr ⟨below_given ?_,below_append.mpr ⟨below_given ?_,below_list ?_⟩⟩
    all_goals
      simp only [LimitClause.limitOffset.sizeOf_spec]
      omega
  | offsetCommaLimit offset limit =>
    refine below_cons.mpr ⟨?_,below_one.mpr (by simp)⟩
    simp only [SyntaxNode.size,LimitClause.offsetCommaLimit.sizeOf_spec]
    omega

theorem scope_below (q : Query) : Below (sizeOf q) q.scopeParts := by
  obtain ⟨withClause,body,orderBy,limitClause,unread⟩ := q
  refine below_cons.mpr ⟨?_,below_append.mpr ⟨below_list ?_,below_append.mpr ⟨below_optional limit_below ?_,below_list ?_⟩⟩⟩
  all_goals
    simp only [SyntaxNode.size,Query.mk.sizeOf_spec]
    omega

theorem body_below (body : SetExpr) : Below (sizeOf body) body.parts := by
  cases body with
  | values rows =>
    refine below_mono (below_each (fun row => below_list (Nat.le_refl (sizeOf row))) (Nat.le_refl (sizeOf rows))) ?_
    simp only [SetExpr.values.sizeOf_spec]
    omega
  | other unread => exact below_list (by simp)
  | _ =>
    simp only [SetExpr.parts,below_cons,below_nil,and_true,SyntaxNode.size,SetExpr.select.sizeOf_spec,
      SetExpr.query.sizeOf_spec,SetExpr.setOperation.sizeOf_spec]
    omega

theorem wildcard_below (kind : WildcardKind) : Below (sizeOf kind) kind.parts := by
  cases kind with
  | objectName name => exact below_nil
  | expr e => exact below_one.mpr (by simp)

theorem item_below (item : SelectItem) : Below (sizeOf item) item.parts := by
  cases item with
  | wildcard leftOut unread => exact below_list (by simp)
  | qualifiedWildcard kind leftOut unread =>
    refine below_append.mpr ⟨below_mono (wildcard_below kind) ?_,below_list ?_⟩
    all_goals
      simp only [SelectItem.qualifiedWildcard.sizeOf_spec]
      omega
  | unnamedExpr e => exact below_one.mpr (by simp)
  | exprWithAlias e name =>
    refine below_one.mpr ?_
    simp only [SelectItem.exprWithAlias.sizeOf_spec]
    omega
  | exprWithAliases e names =>
    refine below_one.mpr ?_
    simp only [SelectItem.exprWithAliases.sizeOf_spec]
    omega

theorem groupBy_below (groupBy : GroupByExpr) : Below (sizeOf groupBy) groupBy.parts := by
  cases groupBy with
  | all => exact below_nil
  | expressions exprs => exact below_list (by simp)

theorem below_tables {step : SyntaxStep} {tables : List TableWithJoins} (small : sizeOf tables ≤ n) :
    Below n (tables.map fun tables => (step,.tables tables)) := by
  intro part member
  obtain ⟨table,inside,rfl⟩ := List.mem_map.mp member
  have less := List.sizeOf_lt_of_mem inside
  simp only [SyntaxNode.size]
  omega

theorem select_below (s : Select) : Below (sizeOf s) s.parts := by
  obtain ⟨projection,sources,selection,groupBy,having,unread⟩ := s
  refine below_append.mpr ⟨below_each item_below ?_,below_append.mpr ⟨below_given ?_,below_append.mpr ⟨below_given ?_,
    below_append.mpr ⟨below_tables ?_,below_append.mpr ⟨below_mono (groupBy_below groupBy) ?_,below_list ?_⟩⟩⟩⟩⟩
  all_goals
    simp only [Select.mk.sizeOf_spec]
    omega

theorem join_below (j : Join) : Below (sizeOf j) j.parts := by
  obtain ⟨relation,joinOperator,condition⟩ := j
  refine below_cons.mpr ⟨?_,below_given ?_⟩
  all_goals
    simp only [SyntaxNode.size,Join.mk.sizeOf_spec]
    omega

theorem tables_below (t : TableWithJoins) : Below (sizeOf t) t.parts := by
  obtain ⟨relation,joins⟩ := t
  refine below_cons.mpr ⟨?_,below_each join_below ?_⟩
  all_goals
    simp only [SyntaxNode.size,TableWithJoins.mk.sizeOf_spec]
    omega

theorem factor_below (f : TableFactor) : Below (sizeOf f) f.parts := by
  cases f with
  | table name tableAlias args unread =>
    refine below_append.mpr ⟨below_relabel.mpr ?_,below_list (by simp)⟩
    cases args with
    | none => exact below_nil
    | some args =>
      refine below_each arg_below ?_
      simp only [Option.getD_some,TableFactor.table.sizeOf_spec,Option.some.sizeOf_spec]
      omega
  | unnest exprs tableAlias =>
    refine below_list ?_
    simp only [TableFactor.unnest.sizeOf_spec]
    omega
  | function name args tableAlias =>
    refine below_relabel.mpr (below_each arg_below ?_)
    simp only [TableFactor.function.sizeOf_spec]
    omega
  | other unread => exact below_list (by simp)
  | _ =>
    simp only [TableFactor.parts,below_cons,below_nil,and_true,SyntaxNode.size,TableFactor.derived.sizeOf_spec,
      TableFactor.nestedJoin.sizeOf_spec,TableFactor.tableFunction.sizeOf_spec]
    omega

theorem assignments_below {assignments : List Assignment} (small : sizeOf assignments ≤ n) :
    Below n (assignmentParts assignments) := by
  intro part member
  obtain ⟨assignment,inside,rfl⟩ := List.mem_map.mp member
  have less := List.sizeOf_lt_of_mem inside
  obtain ⟨target,value⟩ := assignment
  simp only [Assignment.mk.sizeOf_spec] at less
  simp only [SyntaxNode.size]
  omega

theorem tableObject_below (table : TableObject) : Below (sizeOf table) table.parts := by
  cases table with
  | tableName name => exact below_nil
  | tableFunction name unread => exact below_list (by simp)
  | tableQuery query =>
    refine below_cons.mpr ⟨?_,below_nil⟩
    simp only [SyntaxNode.size,TableObject.tableQuery.sizeOf_spec]
    omega

theorem onInsert_below (on : OnInsert) : Below (sizeOf on) on.parts := by
  cases on with
  | duplicateKeyUpdate assignments => exact assignments_below (by simp)
  | onConflict action =>
    cases action with
    | doNothing => exact below_nil
    | doUpdate update =>
      obtain ⟨assignments,selection⟩ := update
      refine below_append.mpr ⟨assignments_below ?_,below_given ?_⟩
      all_goals
        simp only [OnInsert.onConflict.sizeOf_spec,OnConflictAction.doUpdate.sizeOf_spec,DoUpdate.mk.sizeOf_spec]
        omega

theorem returning_below {returning : Option (List SelectItem)} (small : sizeOf returning ≤ n) :
    Below n (returningParts returning) := by
  refine below_relabel.mpr ?_
  cases returning with
  | none => exact below_nil
  | some items =>
    refine below_each item_below ?_
    simp only [Option.some.sizeOf_spec] at small
    simp only [Option.getD_some]
    omega

theorem below_sources {step : SyntaxStep} {tables : Option (List TableWithJoins)} (small : sizeOf tables ≤ n) :
    Below n ((tables.getD []).map fun tables => (step,.tables tables)) := by
  cases tables with
  | none => exact below_nil
  | some tables =>
    refine below_tables ?_
    simp only [Option.some.sizeOf_spec] at small
    simp only [Option.getD_some]
    omega

theorem insert_below (i : Insert) : Below (sizeOf i) i.parts := by
  obtain ⟨table,columns,source,assignments,on,returning⟩ := i
  refine below_append.mpr ⟨below_mono (tableObject_below table) ?_,below_append.mpr ⟨?_,below_append.mpr
    ⟨assignments_below ?_,below_append.mpr ⟨below_optional onInsert_below ?_,returning_below ?_⟩⟩⟩⟩
  case refine_2 =>
    cases source with
    | none => exact below_nil
    | some query =>
      refine below_cons.mpr ⟨?_,below_nil⟩
      simp only [SyntaxNode.size,Insert.mk.sizeOf_spec,Option.some.sizeOf_spec]
      omega
  all_goals
    simp only [Insert.mk.sizeOf_spec]
    omega

theorem update_below (u : Update) : Below (sizeOf u) u.parts := by
  obtain ⟨table,assignments,sources,selection,returning,unread⟩ := u
  refine below_cons.mpr ⟨?_,below_append.mpr ⟨assignments_below ?_,below_append.mpr ⟨below_sources ?_,below_append.mpr
    ⟨below_given ?_,below_append.mpr ⟨returning_below ?_,below_list ?_⟩⟩⟩⟩⟩
  all_goals
    simp only [SyntaxNode.size,Update.mk.sizeOf_spec]
    omega

theorem delete_below (d : Delete) : Below (sizeOf d) d.parts := by
  obtain ⟨sources,usingTables,selection,returning,unread⟩ := d
  refine below_append.mpr ⟨below_tables ?_,below_append.mpr ⟨below_sources ?_,below_append.mpr ⟨below_given ?_,
    below_append.mpr ⟨returning_below ?_,below_list ?_⟩⟩⟩⟩
  all_goals
    simp only [Delete.mk.sizeOf_spec]
    omega

theorem statement_below (s : Statement) : Below (sizeOf s) s.parts := by
  cases s with
  | query q =>
    refine below_cons.mpr ⟨?_,below_nil⟩
    simp only [SyntaxNode.size,Statement.query.sizeOf_spec]
    omega
  | insert i => exact below_mono (insert_below i) (by simp)
  | update u => exact below_mono (update_below u) (by simp)
  | delete d => exact below_mono (delete_below d) (by simp)
  | other => exact below_nil

theorem node_smaller (x : SyntaxNode) : ∀ part ∈ x.parts,part.2.size < x.size := by
  cases x with
  | statement s => exact statement_below s
  | query q => exact query_below q
  | scope q => exact scope_below q
  | body b => exact body_below b
  | select s => exact select_below s
  | tables t => exact tables_below t
  | factor f => exact factor_below f
  | expr e => exact expr_below e

end Sizes

def syntaxTree : Tree SyntaxNode SyntaxStep where
  parts := SyntaxNode.parts
  sized := ⟨SyntaxNode.size,node_smaller⟩

section Expressions

-- The steps from an expression.
def ofExpr : SyntaxStep → Bool
  | .cast | .argument | .namedArgument | .exprNamedArgument | .argumentName | .argumentClause | .argumentQuery
  | .filter | .window | .functionClause | .binary | .unary | .nested | .isNull | .isNotNull | .isTruth
  | .inListOperand | .inListItem | .inSubqueryOperand | .inSubquery | .between | .like | .iLike
  | .caseOperand | .caseCondition | .caseResult | .caseElse | .subquery | .exists | .anyOp | .allOp
  | .array | .tuple | .extract | .substring | .trim | .position | .atTimeZone | .interval
  | .accessRoot | .accessDot | .accessIndex | .ceil | .floor | .other => true
  | _ => false

-- Those of them that lead into a query.
def opensQuery : SyntaxStep → Bool
  | .subquery | .inSubquery | .exists | .argumentQuery => true
  | _ => false

def IsExpr (x : SyntaxNode) : Prop := ∃ e,x = .expr e

def AmongExprs (parts : SyntaxParts) : Prop :=
  ∀ part ∈ parts,ofExpr part.1 = true ∧ (opensQuery part.1 = false → IsExpr part.2)

theorem among_nil : AmongExprs [] := fun _ absent => absurd absent List.not_mem_nil

theorem among_cons {step : SyntaxStep} (own : ofExpr step = true) {e : Expr} {parts : SyntaxParts} (rest : AmongExprs parts) :
    AmongExprs ((step,.expr e) :: parts) :=
  List.forall_mem_cons.mpr ⟨⟨own,fun _ => ⟨e,rfl⟩⟩,rest⟩

theorem among_append {front back : SyntaxParts} (one : AmongExprs front) (two : AmongExprs back) :
    AmongExprs (front ++ back) :=
  List.forall_mem_append.mpr ⟨one,two⟩

theorem among_exprs {step : SyntaxStep} (own : ofExpr step = true) (exprs : List Expr) :
    AmongExprs (exprParts step exprs) :=
  List.forall_mem_map.mpr fun e _ => ⟨own,fun _ => ⟨e,rfl⟩⟩

theorem among_query {step : SyntaxStep} (own : ofExpr step = true) (opens : opensQuery step = true) (query : Query) :
    AmongExprs [(step,.query query)] := by
  refine List.forall_mem_cons.mpr ⟨⟨own,fun closed => ?_⟩,among_nil⟩
  rw [opens] at closed
  cases closed

theorem among_flatMap {β : Type} {f : β → SyntaxParts} (each : ∀ item,AmongExprs (f item)) (items : List β) :
    AmongExprs (items.flatMap f) := by
  intro part inside
  obtain ⟨item,_,inside⟩ := List.mem_flatMap.mp inside
  exact each item part inside

theorem argExpr_among {step : SyntaxStep} (own : ofExpr step = true) (arg : FunctionArgExpr) : AmongExprs (arg.parts step) := by
  cases arg with
  | expr e => exact among_cons own among_nil
  | _ => exact among_nil

theorem arg_among (arg : FunctionArg) : AmongExprs arg.parts := by
  cases arg with
  | named name arg => exact argExpr_among rfl arg
  | exprNamed name arg => exact among_cons rfl (argExpr_among rfl arg)
  | unnamed arg => exact argExpr_among rfl arg

theorem function_among (f : Function) : AmongExprs f.parts := by
  have args : AmongExprs f.args.parts := by
    cases f.args with
    | none => exact among_nil
    | subquery query => exact among_query rfl rfl query
    | list args clause unread => exact among_append (among_flatMap arg_among args) (among_exprs rfl _)
  exact among_append args (among_append (among_exprs rfl _) (among_append (among_exprs rfl _) (among_exprs rfl _)))

theorem expr_among (e : Expr) : AmongExprs e.parts := by
  cases e with
  | function f => exact function_among f
  | case operand conditions elseResult =>
    refine among_append (among_exprs rfl _) (among_append ?_ (among_exprs rfl _))
    exact among_flatMap (fun arm => among_cons rfl (among_cons rfl among_nil)) conditions
  | compoundFieldAccess root chain =>
    refine among_cons rfl (among_flatMap (fun access => ?_) chain)
    cases access with
    | dot e => exact among_cons rfl among_nil
    | subscript indices => exact among_exprs rfl _
  | inSubquery e query negated => exact among_cons rfl (among_query rfl rfl query)
  | subquery query => exact among_query rfl rfl query
  | «exists» query negated => exact among_query rfl rfl query
  | inList e list negated => exact among_cons rfl (among_exprs rfl _)
  | substring e bounds => exact among_cons rfl (among_exprs rfl _)
  | trim e characters => exact among_cons rfl (among_exprs rfl _)
  | array elem => exact among_exprs rfl _
  | tuple exprs => exact among_exprs rfl _
  | other children => exact among_exprs rfl _
  | between e negated low high => exact among_cons rfl (among_cons rfl (among_cons rfl among_nil))
  | binaryOp | like | iLike | anyOp | allOp | position | atTimeZone =>
    exact among_cons rfl (among_cons rfl among_nil)
  | cast | unaryOp | nested | isNull | isNotNull | isTruth | extract | interval | ceil | floor =>
    exact among_cons rfl among_nil
  | identifier | compoundIdentifier | value | typedString => exact among_nil

theorem exprs_closed {through : SyntaxStep → Bool} (closed : ∀ step,opensQuery step = true → through step = false) (x : SyntaxNode)
    (is : IsExpr x) : ∀ part ∈ x.parts,through part.1 = true → IsExpr part.2 := by
  obtain ⟨outer,rfl⟩ := is
  intro part member taken
  refine (expr_among outer part member).2 ?_
  cases opens : opensQuery part.1 with
  | false => rfl
  | true =>
    rw [closed part.1 opens] at taken
    cases taken

-- A search over expressions, by what it says of one of them and its parts.
theorem search_exprs {through : SyntaxStep → Bool} {here : SyntaxNode → Bool} {found : Expr → Bool}
    (closed : ∀ step,opensQuery step = true → through step = false)
    (goes : ∀ e,found e = (here (.expr e) || e.parts.any fun part => through part.1 &&
      match part.2 with
      | .expr inner => found inner
      | _ => false))
    (e : Expr) : found e = (syntaxTree.located (.expr e)).any fun place => place.1.all through && here place.2 := by
  let foundIn : SyntaxNode → Bool
    | .expr inner => found inner
    | _ => false
  refine syntaxTree.search_located here foundIn (exprs_closed closed) ?_ (.expr e) ⟨e,rfl⟩
  rintro x ⟨outer,rfl⟩
  exact goes outer

theorem first_exprs {β : Type} {through : SyntaxStep → Bool} {here : SyntaxNode → Option β} {found : Expr → Option β}
    (closed : ∀ step,opensQuery step = true → through step = false)
    (goes : ∀ e,found e = (here (.expr e)).or (e.parts.findSome? fun part => if through part.1 then
      match part.2 with
      | .expr inner => found inner
      | _ => none
      else none))
    (e : Expr) : found e =
      (syntaxTree.located (.expr e)).findSome? fun place => if place.1.all through then here place.2 else none := by
  let foundIn : SyntaxNode → Option β
    | .expr inner => found inner
    | _ => none
  refine syntaxTree.first_located here foundIn (exprs_closed closed) ?_ (.expr e) ⟨e,rfl⟩
  rintro x ⟨outer,rfl⟩
  exact goes outer

end Expressions

end Scythe
