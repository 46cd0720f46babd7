import Mathlib.Data.List.Flatten
import Scythe.LintRules

-- Which expressions of a statement the walks of the rules come to.
namespace Scythe.LintRules
open TreeWalk Text UnboundParams

section Steps

-- The steps that the walk over a query takes.
def queryStep : SyntaxStep → Bool
  | .statementQuery | .scope _ | .body | .selectBody | .innerQuery | .arm | .selection | .having => true
  | _ => false

def Antipattern.takes : SyntaxStep → Bool
  | .source | .updateSelection | .deleteSelection | .binary | .unary | .nested | .isNull | .isNotNull => true
  | .joinOn op => hasConstraint op
  | step => queryStep step

def Performance.takes : SyntaxStep → Bool
  | .updateSelection | .deleteSelection | .binary | .unary | .nested | .isNull | .isNotNull
  | .like | .iLike | .inSubqueryOperand | .inListOperand | .inListItem => true
  | step => queryStep step

def Style.takes : SyntaxStep → Bool
  | .projection | .binary | .unary | .nested | .argument | .namedArgument | .exprNamedArgument
  | .caseOperand | .caseCondition | .caseResult | .caseElse => true
  | step => queryStep step

end Steps

section Walks
variable {β : Type} (visitor : Expr → List β)

def ownOf : SyntaxNode → List β
  | .expr e => visitor e
  | _ => []

theorem follow_exprs {through : SyntaxStep → Bool} {walk : SyntaxNode → List β} (step : SyntaxStep) (exprs : List Expr) :
    follow through walk (exprParts step exprs) = if through step then exprs.flatMap fun e => walk (.expr e) else [] :=
  follow_map step SyntaxNode.expr exprs

theorem follow_skipped {through : SyntaxStep → Bool} {walk : SyntaxNode → List β} {parts : SyntaxParts}
    (skipped : ∀ part ∈ parts,through part.1 = false) : follow through walk parts = [] := by
  unfold follow
  rw [List.filter_eq_nil_iff.mpr fun part member => by rw [skipped part member]; exact Bool.false_ne_true]
  rfl

theorem exprParts_step {step : SyntaxStep} {exprs : List Expr} {part : SyntaxStep × SyntaxNode} (member : part ∈ exprParts step exprs) :
    part.1 = step := by
  obtain ⟨_,_,rfl⟩ := List.mem_map.mp member
  rfl

-- The steps into the parts of a call.
def functionSteps : List SyntaxStep :=
  [.argument,.namedArgument,.exprNamedArgument,.argumentName,.argumentClause,.argumentQuery,.filter,.window,.functionClause]

theorem argExpr_step {step : SyntaxStep} {arg : FunctionArgExpr} {part : SyntaxStep × SyntaxNode} (member : part ∈ arg.parts step) :
    part.1 = step := by
  cases arg with
  | expr e =>
    cases List.mem_singleton.mp member
    rfl
  | qualifiedWildcard name => cases member
  | wildcard => cases member

theorem arg_step {arg : FunctionArg} {part : SyntaxStep × SyntaxNode} (member : part ∈ arg.parts) : part.1 ∈ functionSteps := by
  cases arg with
  | named name arg =>
    rw [argExpr_step member]
    decide
  | exprNamed name arg =>
    rcases List.mem_cons.mp member with rfl | inner
    · exact show SyntaxStep.argumentName ∈ functionSteps by decide
    · rw [argExpr_step inner]
      decide
  | unnamed arg =>
    rw [argExpr_step member]
    decide

theorem function_step {f : Function} {part : SyntaxStep × SyntaxNode} (member : part ∈ f.parts) : part.1 ∈ functionSteps := by
  have plain {step : SyntaxStep} {exprs : List Expr} (among : step ∈ functionSteps) (inside : part ∈ exprParts step exprs) :
      part.1 ∈ functionSteps :=
    (exprParts_step inside).symm ▸ among
  rcases List.mem_append.mp member with args | rest
  · cases is : f.args with
    | none =>
      rw [is] at args
      cases args
    | subquery query =>
      rw [is] at args
      cases List.mem_singleton.mp args
      exact show SyntaxStep.argumentQuery ∈ functionSteps by decide
    | list items clause unread =>
      rw [is] at args
      rcases List.mem_append.mp args with item | clauses
      · obtain ⟨arg,_,inside⟩ := List.mem_flatMap.mp item
        exact arg_step inside
      · exact plain (by decide) clauses
  · rcases List.mem_append.mp rest with filter | rest
    · exact plain (by decide) filter
    · rcases List.mem_append.mp rest with window | clauses
      · exact plain (by decide) window
      · exact plain (by decide) clauses

theorem follow_function {through : SyntaxStep → Bool} {walk : SyntaxNode → List β} (skips : ∀ step ∈ functionSteps,through step = false)
    (f : Function) : follow through walk f.parts = [] :=
  follow_skipped fun _ member => skips _ (function_step member)

theorem follow_conditions {through : SyntaxStep → Bool} {walk : SyntaxNode → List β} (condition : through .caseCondition = false)
    (result : through .caseResult = false) (arms : List CaseWhen) :
    follow through walk (arms.flatMap CaseWhen.parts) = [] := by
  rw [follow_flatMap]
  refine List.flatMap_eq_nil_iff.mpr fun arm _ => ?_
  simp [CaseWhen.parts,follow_cons,follow_nil,condition,result]

theorem follow_accesses {through : SyntaxStep → Bool} {walk : SyntaxNode → List β} (dot : through .accessDot = false)
    (index : through .accessIndex = false) (chain : List AccessExpr) :
    follow through walk (chain.flatMap AccessExpr.parts) = [] := by
  rw [follow_flatMap]
  refine List.flatMap_eq_nil_iff.mpr fun access _ => ?_
  cases access
  all_goals simp [AccessExpr.parts,follow_cons,follow_nil,follow_exprs,dot,index]

theorem follow_ctes {through : SyntaxStep → Bool} {walk : SyntaxNode → List β} (skips : ∀ names,through (.cte names) = false)
    (q : Query) : follow through walk q.parts = if through (.scope q.names) then walk (.scope q) else [] := by
  have common (recursive : Bool) (all before : List Ident) (ctes : List Cte) :
      follow through walk (cteParts recursive all before ctes) = [] := by
    induction ctes generalizing before with
    | nil => rfl
    | cons cte ctes ih =>
      rw [cteParts,follow_cons,ih,skips]
      rfl
  have none : follow through walk (q.withClause.toList.flatMap With.parts) = [] := by
    rw [follow_flatMap]
    exact List.flatMap_eq_nil_iff.mpr fun w _ => common _ _ _ _
  rw [Query.parts,follow_append,none,follow_cons,follow_nil,List.nil_append,List.append_nil]

theorem walkQuery_eq (ofSelect : Select → List β) (q : Query) : walkQuery ofSelect q = walkSetExpr ofSelect q.body := by
  obtain ⟨withClause,body,orderBy,limitClause,unread⟩ := q
  rw [walkQuery]

def Antipattern.walkNode : SyntaxNode → List β
  | .statement s => walkExprs visitor s
  | .query q => walkQuery (walkSelect visitor) q
  | .scope q => walkQuery (walkSelect visitor) q
  | .body b => walkSetExpr (walkSelect visitor) b
  | .select s => walkSelect visitor s
  | .tables t => t.joins.flatMap fun join => (joinConstraintExpr join).toList.flatMap (walkExpr visitor)
  | .factor _ => []
  | .expr e => walkExpr visitor e

theorem Antipattern.expr_goes (e : Expr) :
    walkExpr visitor e = visitor e ++ follow takes (walkNode visitor) e.parts := by
  have skips : ∀ step ∈ functionSteps,takes step = false := by decide
  cases e
  case function f => simp [walkExpr,Expr.parts,follow_function skips]
  case case operand conditions elseResult =>
    rw [Expr.parts,follow_append,follow_append,follow_conditions rfl rfl,follow_exprs,follow_exprs]
    simp [walkExpr,takes,queryStep]
  case compoundFieldAccess root chain =>
    rw [Expr.parts,follow_cons,follow_accesses rfl rfl]
    simp [walkExpr,takes,queryStep]
  all_goals simp [walkExpr,Expr.parts,follow_cons,follow_nil,follow_exprs,takes,queryStep,walkNode]

def Performance.walkNode : SyntaxNode → List β
  | .statement s => walkExprs visitor s
  | .query q => walkQuery (walkSelect visitor) q
  | .scope q => walkQuery (walkSelect visitor) q
  | .body b => walkSetExpr (walkSelect visitor) b
  | .select s => walkSelect visitor s
  | .tables _ | .factor _ => []
  | .expr e => walkExpr visitor e

theorem Performance.walkList_eq (es : List Expr) : walkList visitor es = es.flatMap (walkExpr visitor) := by
  induction es with
  | nil => rw [walkList,List.flatMap_nil]
  | cons e es ih => rw [walkList,List.flatMap_cons,ih]

theorem Performance.expr_goes (e : Expr) :
    walkExpr visitor e = visitor e ++ follow takes (walkNode visitor) e.parts := by
  have skips : ∀ step ∈ functionSteps,takes step = false := by decide
  cases e
  case function f => simp [walkExpr,Expr.parts,follow_function skips]
  case case operand conditions elseResult =>
    rw [Expr.parts,follow_append,follow_append,follow_conditions rfl rfl,follow_exprs,follow_exprs]
    simp [walkExpr,takes,queryStep]
  case compoundFieldAccess root chain =>
    rw [Expr.parts,follow_cons,follow_accesses rfl rfl]
    simp [walkExpr,takes,queryStep]
  all_goals simp [walkExpr,Expr.parts,follow_cons,follow_nil,follow_exprs,takes,queryStep,walkNode,walkList_eq]

def Style.walkNode : SyntaxNode → List β
  | .statement s => walkExprs visitor s
  | .query q => walkQuery (walkSelect visitor) q
  | .scope q => walkQuery (walkSelect visitor) q
  | .body b => walkSetExpr (walkSelect visitor) b
  | .select s => walkSelect visitor s
  | .tables _ | .factor _ => []
  | .expr e => walkExpr visitor e

theorem Style.walkOption_eq (e : Option Expr) : walkOption visitor e = e.toList.flatMap (walkExpr visitor) := by
  cases e with
  | none => rw [walkOption,Option.toList_none,List.flatMap_nil]
  | some e => rw [walkOption,Option.toList_some,List.flatMap_singleton]

theorem Style.walkConditions_eq (arms : List CaseWhen) :
    walkConditions visitor arms = arms.flatMap fun arm => walkExpr visitor arm.condition ++ walkExpr visitor arm.result := by
  induction arms with
  | nil => rw [walkConditions,List.flatMap_nil]
  | cons arm arms ih =>
    obtain ⟨condition,result⟩ := arm
    rw [walkConditions,List.flatMap_cons,ih,walkCondition]

theorem Style.walkArgs_eq (args : List FunctionArg) : walkArgs visitor args = args.flatMap (walkArg visitor) := by
  induction args with
  | nil => rw [walkArgs,List.flatMap_nil]
  | cons arg args ih => rw [walkArgs,List.flatMap_cons,ih]

theorem Style.arg_goes (arg : FunctionArg) :
    walkArg visitor arg = follow takes (walkNode visitor) arg.parts := by
  have inner (step : SyntaxStep) (taken : takes step = true) (arg : FunctionArgExpr) :
      walkArgExpr visitor arg = follow takes (walkNode visitor) (arg.parts step) := by
    cases arg
    all_goals simp [walkArgExpr,FunctionArgExpr.parts,follow_cons,follow_nil,taken,walkNode]
  cases arg with
  | named name arg =>
    rw [walkArg]
    exact inner _ rfl arg
  | exprNamed name arg =>
    rw [walkArg,FunctionArg.parts,follow_cons]
    exact inner _ rfl arg
  | unnamed arg =>
    rw [walkArg]
    exact inner _ rfl arg

theorem Style.function_goes (f : Function) : walkFunction visitor f = follow takes (walkNode visitor) f.parts := by
  obtain ⟨name,args,filter,nullTreatment,overWindow,unread⟩ := f
  rw [walkFunction,Function.parts,follow_append,follow_append,follow_append,follow_exprs,follow_exprs,follow_exprs]
  cases args with
  | none => simp [walkArguments,FunctionArguments.parts,follow_nil,takes,queryStep]
  | subquery query => simp [walkArguments,FunctionArguments.parts,follow_cons,follow_nil,takes,queryStep]
  | list items clause unread =>
    have goes : walkArg visitor = fun arg => follow takes (walkNode visitor) arg.parts := funext (arg_goes visitor)
    rw [walkArguments,walkArgs_eq,FunctionArguments.parts,follow_append,follow_flatMap,follow_exprs,goes]
    simp [takes,queryStep]

theorem Style.expr_goes (e : Expr) :
    walkExpr visitor e = visitor e ++ follow takes (walkNode visitor) e.parts := by
  cases e
  case function f => rw [walkExpr,function_goes,Expr.parts]
  case case operand conditions elseResult =>
    rw [walkExpr,Expr.parts,follow_append,follow_append,follow_exprs,follow_exprs,follow_flatMap,walkOption_eq,
      walkOption_eq,walkConditions_eq]
    simp [CaseWhen.parts,follow_cons,follow_nil,takes,walkNode]
  case compoundFieldAccess root chain =>
    rw [Expr.parts,follow_cons,follow_accesses rfl rfl]
    simp [walkExpr,takes,queryStep]
  all_goals simp [walkExpr,Expr.parts,follow_cons,follow_nil,follow_exprs,takes,queryStep,walkNode]

theorem relabel_step {step : SyntaxStep} {parts : SyntaxParts} {part : SyntaxStep × SyntaxNode} (member : part ∈ relabel step parts) :
    part.1 = step := by
  obtain ⟨_,_,rfl⟩ := List.mem_map.mp member
  rfl

theorem follow_relabel {through : SyntaxStep → Bool} {walk : SyntaxNode → List β} {step : SyntaxStep} (skips : through step = false)
    (parts : SyntaxParts) : follow through walk (relabel step parts) = [] :=
  follow_skipped fun _ member => (relabel_step member).symm ▸ skips

theorem follow_skip {through : SyntaxStep → Bool} {walk : SyntaxNode → List β} {step : SyntaxStep} (skips : through step = false)
    (exprs : List Expr) : follow through walk (exprParts step exprs) = [] := by
  rw [follow_exprs,skips]
  rfl

def insertSteps : List SyntaxStep := [.insertTable,.insertSource,.assignment,.conflictSelection,.returning]

theorem assignment_step {assignments : List Assignment} {part : SyntaxStep × SyntaxNode}
    (member : part ∈ assignmentParts assignments) : part.1 = .assignment := by
  obtain ⟨_,_,rfl⟩ := List.mem_map.mp member
  rfl

theorem insert_step {i : Insert} {part : SyntaxStep × SyntaxNode} (member : part ∈ i.parts) : part.1 ∈ insertSteps := by
  have named {step : SyntaxStep} (among : step ∈ insertSteps) (is : part.1 = step) : part.1 ∈ insertSteps := is.symm ▸ among
  rcases List.mem_append.mp member with table | rest
  · cases is : i.table with
    | tableName name =>
      rw [is] at table
      cases table
    | tableFunction name unread =>
      rw [is] at table
      exact named (by decide) (exprParts_step table)
    | tableQuery query =>
      rw [is] at table
      cases List.mem_singleton.mp table
      exact show SyntaxStep.insertTable ∈ insertSteps by decide
  rcases List.mem_append.mp rest with source | rest
  · obtain ⟨_,_,rfl⟩ := List.mem_map.mp source
    exact show SyntaxStep.insertSource ∈ insertSteps by decide
  rcases List.mem_append.mp rest with assigned | rest
  · exact named (by decide) (assignment_step assigned)
  rcases List.mem_append.mp rest with on | returned
  · obtain ⟨action,_,inside⟩ := List.mem_flatMap.mp on
    cases action with
    | duplicateKeyUpdate assignments => exact named (by decide) (assignment_step inside)
    | onConflict action =>
      cases action with
      | doNothing => cases inside
      | doUpdate update =>
        rcases List.mem_append.mp inside with assigned | selection
        · exact named (by decide) (assignment_step assigned)
        · exact named (by decide) (exprParts_step selection)
  · exact named (by decide) (relabel_step returned)

-- The steps that none of the walks takes.
def neverTaken : List SyntaxStep :=
  insertSteps ++ [.updateTable,.updateSource,.statementClause,.deleteSource,.deleteUsing,.orderBy,.limit,.queryClause,
    .values,.bodyClause,.projectionAliases,.wildcard,.groupBy,.selectClause,.tableArgument,.tableClause,.derived,
    .nestedJoin,.tableFunction,.unnest,.otherTable]

section Statements
variable {through : SyntaxStep → Bool} {walk : SyntaxNode → List β} (skips : ∀ step ∈ neverTaken,through step = false)
include skips

theorem follow_insert (i : Insert) : follow through walk i.parts = [] :=
  follow_skipped fun _ member => skips _ (List.mem_append_left _ (insert_step member))

theorem follow_assignments (assignments : List Assignment) : follow through walk (assignmentParts assignments) = [] :=
  follow_skipped fun _ member => (assignment_step member).symm ▸ skips _ (by decide)

theorem follow_untaken {step : SyntaxStep} (never : step ∈ neverTaken) (tables : List TableWithJoins) :
    follow through walk (tables.map fun tables => (step,.tables tables)) = [] := by
  rw [follow_map step SyntaxNode.tables,skips step never]
  rfl

-- Of an UPDATE and a DELETE a walk takes the condition, or nothing.
theorem follow_update (u : Update) : follow through walk u.parts =
    if through .updateSelection then u.selection.toList.flatMap fun e => walk (.expr e) else [] := by
  rw [Update.parts,follow_cons,skips .updateTable (by decide),follow_append,follow_assignments skips,follow_append,
    follow_untaken skips (by decide),follow_append,follow_exprs,follow_append,returningParts,
    follow_relabel (skips _ (by decide)),follow_skip (skips _ (by decide)),List.append_nil,List.append_nil]
  rfl

theorem follow_delete (d : Delete) : follow through walk d.parts =
    if through .deleteSelection then d.selection.toList.flatMap fun e => walk (.expr e) else [] := by
  rw [Delete.parts,follow_append,follow_untaken skips (by decide),follow_append,follow_untaken skips (by decide),
    follow_append,follow_exprs,follow_append,returningParts,
    follow_relabel (skips _ (by decide)),follow_skip (skips _ (by decide)),List.append_nil,List.append_nil]
  rfl

theorem follow_scope (q : Query) :
    follow through walk q.scopeParts = if through .body then walk (.body q.body) else [] := by
  have limits : follow through walk (q.limitClause.toList.flatMap LimitClause.parts) = [] := by
    rw [follow_flatMap]
    refine List.flatMap_eq_nil_iff.mpr fun limitClause _ => ?_
    cases limitClause
    all_goals simp [LimitClause.parts,follow_append,follow_cons,follow_nil,follow_exprs,skips .limit (by decide)]
  rw [Query.scopeParts,follow_cons,follow_append,follow_skip (skips _ (by decide)),follow_append,limits,
    follow_skip (skips _ (by decide)),List.append_nil,List.append_nil,List.append_nil]

-- A walk over the bodies of a query, by what it takes of a SELECT.
theorem follow_body {ofSelect : Select → List β}
    (takes : ∀ step ∈ [SyntaxStep.selectBody,.innerQuery,.arm],through step = true)
    (selects : ∀ s,walk (.select s) = ofSelect s) (queries : ∀ q,walk (.query q) = walkQuery ofSelect q)
    (bodies : ∀ b,walk (.body b) = walkSetExpr ofSelect b) (b : SetExpr) :
    walkSetExpr ofSelect b = follow through walk b.parts := by
  simp only [List.forall_mem_cons] at takes
  obtain ⟨select,query,arm,-⟩ := takes
  cases b with
  | values rows =>
    rw [walkSetExpr,SetExpr.parts,follow_flatMap]
    exact (List.flatMap_eq_nil_iff.mpr fun row _ => follow_skip (skips .values (by decide)) row).symm
  | other unread =>
    rw [walkSetExpr,SetExpr.parts,follow_skip (skips _ (by decide))]
  | _ => simp [walkSetExpr,SetExpr.parts,follow_cons,follow_nil,select,query,arm,selects,queries,bodies]

theorem follow_item (item : SelectItem) : follow through walk item.parts =
    if through .projection then
      match item with
      | .unnamedExpr e | .exprWithAlias e _ => walk (.expr e)
      | _ => []
    else [] := by
  have aliases := skips .projectionAliases (by decide)
  have wildcard := skips .wildcard (by decide)
  cases item with
  | qualifiedWildcard kind leftOut unread =>
    cases kind
    all_goals simp [SelectItem.parts,WildcardKind.parts,follow_cons,follow_exprs,wildcard]
  | _ => simp [SelectItem.parts,follow_cons,follow_nil,follow_exprs,aliases,wildcard]

theorem follow_groupBy (groupBy : GroupByExpr) : follow through walk groupBy.parts = [] := by
  cases groupBy with
  | all => rfl
  | expressions exprs => exact follow_skip (skips _ (by decide)) exprs

theorem follow_select (s : Select) : follow through walk s.parts =
    (s.projection.flatMap fun item => follow through walk item.parts) ++
      ((if through .selection then s.selection.toList.flatMap fun e => walk (.expr e) else []) ++
        ((if through .having then s.having.toList.flatMap fun e => walk (.expr e) else []) ++
          if through .source then s.sources.flatMap fun tables => walk (.tables tables) else [])) := by
  rw [Select.parts,follow_append,follow_flatMap,follow_append,follow_append,follow_append,follow_append,follow_exprs,
    follow_exprs,follow_map,follow_groupBy skips,follow_skip (skips _ (by decide)),List.append_nil,List.append_nil]

theorem follow_factor (f : TableFactor) : follow through walk f.parts = [] := by
  have argument := skips .tableArgument (by decide)
  have clause := skips .tableClause (by decide)
  have derived := skips .derived (by decide)
  have join := skips .nestedJoin (by decide)
  have function := skips .tableFunction (by decide)
  have unnest := skips .unnest (by decide)
  have other := skips .otherTable (by decide)
  cases f
  all_goals simp [TableFactor.parts,follow_append,follow_cons,follow_nil,follow_exprs,follow_relabel,argument,clause,
    derived,join,function,unnest,other]

end Statements

-- What the walks over statements have in common; they differ in what they take of a SELECT
-- and of an expression.
structure Walk (own : SyntaxNode → List β) (through : SyntaxStep → Bool) (walk : SyntaxNode → List β)
    (ofSelect : Select → List β) : Prop where
  ownStatement : ∀ s,own (.statement s) = []
  ownQuery : ∀ q,own (.query q) = []
  ownScope : ∀ q,own (.scope q) = []
  ownBody : ∀ b,own (.body b) = []
  ownFactor : ∀ f,own (.factor f) = []
  skips : ∀ step ∈ neverTaken,through step = false
  takes : ∀ step ∈ [SyntaxStep.selectBody,.innerQuery,.arm],through step = true
  statementQuery : through .statementQuery = true
  body : through .body = true
  cte : ∀ names,through (.cte names) = false
  scope : ∀ names,through (.scope names) = true
  ofQuery : ∀ q,walk (.statement (.query q)) = walkQuery ofSelect q
  ofUpdate : ∀ u : Update,walk (.statement (.update u)) =
    if through .updateSelection then u.selection.toList.flatMap fun e => walk (.expr e) else []
  ofDelete : ∀ d : Delete,walk (.statement (.delete d)) =
    if through .deleteSelection then d.selection.toList.flatMap fun e => walk (.expr e) else []
  ofInsert : ∀ i,walk (.statement (.insert i)) = []
  ofOther : walk (.statement .other) = []
  queries : ∀ q,walk (.query q) = walkQuery ofSelect q
  scopes : ∀ q,walk (.scope q) = walkQuery ofSelect q
  bodies : ∀ b,walk (.body b) = walkSetExpr ofSelect b
  selects : ∀ s,walk (.select s) = ofSelect s
  factors : ∀ f,walk (.factor f) = []
  select_goes : ∀ s : Select,ofSelect s = own (.select s) ++ follow through walk s.parts
  tables_goes : ∀ t : TableWithJoins,walk (.tables t) = own (.tables t) ++ follow through walk t.parts
  expr_goes : ∀ e : Expr,walk (.expr e) = own (.expr e) ++ follow through walk e.parts

theorem Walk.node_goes {own : SyntaxNode → List β} {through : SyntaxStep → Bool} {walk : SyntaxNode → List β}
    {ofSelect : Select → List β} (is : Walk own through walk ofSelect) (x : SyntaxNode) :
    walk x = own x ++ follow through walk (syntaxTree.parts x) := by
  change _ = _ ++ follow through walk x.parts
  cases x with
  | statement s =>
    rw [is.ownStatement,List.nil_append]
    cases s with
    | query q =>
      change _ = follow through walk [(.statementQuery,.query q)]
      rw [is.ofQuery,follow_cons,is.statementQuery,follow_nil,is.queries]
      exact (List.append_nil _).symm
    | insert i => exact (is.ofInsert i).trans (follow_insert is.skips i).symm
    | update u => exact (is.ofUpdate u).trans (follow_update is.skips u).symm
    | delete d => exact (is.ofDelete d).trans (follow_delete is.skips d).symm
    | other => exact is.ofOther
  | query q =>
    change _ = _ ++ follow through walk q.parts
    rw [is.ownQuery,follow_ctes is.cte,is.scope,is.queries,is.scopes]
    rfl
  | scope q =>
    change _ = _ ++ follow through walk q.scopeParts
    rw [is.ownScope,follow_scope is.skips,is.body,is.scopes,is.bodies,walkQuery_eq]
    rfl
  | body b =>
    rw [is.ownBody,List.nil_append]
    exact (is.bodies b).trans (follow_body is.skips is.takes is.selects is.queries is.bodies b)
  | select s => exact (is.selects s).trans (is.select_goes s)
  | tables t => exact is.tables_goes t
  | factor f =>
    rw [is.ownFactor,List.nil_append]
    exact (is.factors f).trans (follow_factor is.skips f).symm
  | expr e => exact is.expr_goes e

theorem Walk.reached {own : SyntaxNode → List β} {through : SyntaxStep → Bool} {walk : SyntaxNode → List β}
    {ofSelect : Select → List β} (is : Walk own through walk ofSelect) (stmt : Statement) :
    walk (.statement stmt) = (syntaxTree.reached through (.statement stmt)).flatMap own :=
  syntaxTree.walk_reached (fun _ => True) (fun _ _ _ _ _ => trivial) (fun x _ => is.node_goes x) _ trivial

-- Where the joins of a FROM are not looked at.
theorem follow_joins {through : SyntaxStep → Bool} {walk : SyntaxNode → List β} (relation : through .relation = false)
    (joined : ∀ op,through (.joined op) = false) (on : ∀ op,through (.joinOn op) = false) (t : TableWithJoins) :
    follow through walk t.parts = [] := by
  rw [TableWithJoins.parts,follow_cons,relation,follow_flatMap]
  refine List.flatMap_eq_nil_iff.mpr fun join _ => ?_
  rw [Join.parts,follow_cons,joined,follow_skip (on _)]
  rfl

theorem Antipattern.walks : Walk (ownOf visitor) takes (walkNode visitor) (walkSelect visitor) where
  ownStatement _ := rfl
  ownQuery _ := rfl
  ownScope _ := rfl
  ownBody _ := rfl
  ownFactor _ := rfl
  skips := by decide
  takes := by decide
  statementQuery := rfl
  body := rfl
  cte _ := rfl
  scope _ := rfl
  ofQuery _ := rfl
  ofUpdate _ := rfl
  ofDelete _ := rfl
  ofInsert _ := rfl
  ofOther := rfl
  queries _ := rfl
  scopes _ := rfl
  bodies _ := rfl
  selects _ := rfl
  factors _ := rfl
  select_goes s := by
    have none : (s.projection.flatMap fun item => follow takes (walkNode visitor) item.parts) = [] :=
      List.flatMap_eq_nil_iff.mpr fun item _ => follow_item (by decide) item
    rw [follow_select (by decide),none]
    rfl
  tables_goes t := by
    rw [TableWithJoins.parts,follow_cons,follow_flatMap]
    refine congrArg (fun gather => t.joins.flatMap gather) (funext fun join => ?_)
    rw [Join.parts,follow_cons,follow_exprs]
    cases taken : hasConstraint join.joinOperator
    all_goals simp [joinConstraintExpr,takes,queryStep,taken,walkNode]
  expr_goes := expr_goes visitor

theorem Performance.walks : Walk (ownOf visitor) takes (walkNode visitor) (walkSelect visitor) where
  ownStatement _ := rfl
  ownQuery _ := rfl
  ownScope _ := rfl
  ownBody _ := rfl
  ownFactor _ := rfl
  skips := by decide
  takes := by decide
  statementQuery := rfl
  body := rfl
  cte _ := rfl
  scope _ := rfl
  ofQuery _ := rfl
  ofUpdate _ := rfl
  ofDelete _ := rfl
  ofInsert _ := rfl
  ofOther := rfl
  queries _ := rfl
  scopes _ := rfl
  bodies _ := rfl
  selects _ := rfl
  factors _ := rfl
  select_goes s := by
    have none : (s.projection.flatMap fun item => follow takes (walkNode visitor) item.parts) = [] :=
      List.flatMap_eq_nil_iff.mpr fun item _ => follow_item (by decide) item
    rw [follow_select (by decide),none]
    exact congrArg (_ ++ ·) (List.append_nil _).symm
  tables_goes t := (follow_joins rfl (fun _ => rfl) (fun _ => rfl) t).symm
  expr_goes := expr_goes visitor

theorem Style.walks : Walk (ownOf visitor) takes (walkNode visitor) (walkSelect visitor) where
  ownStatement _ := rfl
  ownQuery _ := rfl
  ownScope _ := rfl
  ownBody _ := rfl
  ownFactor _ := rfl
  skips := by decide
  takes := by decide
  statementQuery := rfl
  body := rfl
  cte _ := rfl
  scope _ := rfl
  ofQuery _ := rfl
  ofUpdate _ := rfl
  ofDelete _ := rfl
  ofInsert _ := rfl
  ofOther := rfl
  queries _ := rfl
  scopes _ := rfl
  bodies _ := rfl
  selects _ := rfl
  factors _ := rfl
  select_goes s := by
    have goes : (fun item => follow takes (walkNode visitor) item.parts) = walkItem visitor :=
      funext fun item => (follow_item (by decide) item).trans (by cases item <;> rfl)
    rw [follow_select (by decide),goes]
    exact congrArg (_ ++ ·) (congrArg (_ ++ ·) (List.append_nil _).symm)
  tables_goes t := (follow_joins rfl (fun _ => rfl) (fun _ => rfl) t).symm
  expr_goes := expr_goes visitor

end Walks

section Exactness
variable [Printer] [CaseMap] [NamePrinter]

def LintRule.takes : LintRule → SyntaxStep → Bool
  | .notEqualNull => Antipattern.takes
  | .likeStartsWithWildcard | .notInSubquery => Performance.takes
  | .preferCoalesceOverCase | .preferCountStar => Style.takes

def LintRule.pattern (rule : LintRule) (expr : Expr) : Bool :=
  match rule with
  | .notEqualNull => (comparedNull expr).isSome
  | .likeStartsWithWildcard => (leadingWildcard expr).isSome
  | .notInSubquery => isNotInSubquery expr
  | .preferCoalesceOverCase => isCoalescePattern expr
  | .preferCountStar => isCountOne expr

def LintRule.occursAt (rule : LintRule) : SyntaxNode → Bool
  | .expr e => rule.pattern e
  | _ => false

-- What is due of every occurrence of the pattern in a statement.
def LintRule.due (rule : LintRule) (stmt : Statement) : List Violation :=
  (syntaxTree.nodes (.statement stmt)).flatMap (ownOf rule.visit)

theorem LintRule.checkQuery_reached (rule : LintRule) (stmt : Statement) :
    rule.checkQuery stmt = (syntaxTree.reached rule.takes (.statement stmt)).flatMap (ownOf rule.visit) := by
  cases rule with
  | notEqualNull => exact (Antipattern.walks _).reached stmt
  | likeStartsWithWildcard => exact (Performance.walks _).reached stmt
  | notInSubquery => exact (Performance.walks _).reached stmt
  | preferCoalesceOverCase => exact (Style.walks _).reached stmt
  | preferCountStar => exact (Style.walks _).reached stmt

theorem LintRule.visit_length (rule : LintRule) (expr : Expr) :
    (rule.visit expr).length = if rule.pattern expr then 1 else 0 := by
  have given {γ : Type} (found : Option γ) (finding : γ → Violation) :
      (found.toList.map finding).length = if found.isSome then 1 else 0 := by
    cases found with
    | none => rfl
    | some _ => rfl
  have tested (found : Bool) (finding : Violation) :
      (if found = true then [finding] else []).length = if found then 1 else 0 := by
    cases found with
    | false => rfl
    | true => rfl
  cases rule with
  | notEqualNull => exact given _ _
  | likeStartsWithWildcard => exact given _ _
  | notInSubquery => exact tested _ _
  | preferCoalesceOverCase => exact tested _ _
  | preferCountStar => exact tested _ _

theorem LintRule.ownOf_length (rule : LintRule) (x : SyntaxNode) :
    (ownOf rule.visit x).length = if rule.occursAt x then 1 else 0 := by
  cases x with
  | expr e => exact rule.visit_length e
  | _ => rfl

theorem LintRule.flatMap_length (rule : LintRule) (nodes : List SyntaxNode) :
    (nodes.flatMap (ownOf rule.visit)).length = nodes.countP rule.occursAt := by
  induction nodes with
  | nil => rfl
  | cons x nodes ih => rw [List.flatMap_cons,List.length_append,ih,rule.ownOf_length,List.countP_cons,Nat.add_comm]

-- A rule reports each occurrence of its pattern, and once, just where no occurrence stands
-- behind a step that the walk of its file does not take.
theorem lint_walk_exact_iff (rule : LintRule) (stmt : Statement) :
    (rule.checkQuery stmt).Perm (rule.due stmt) ↔
      ∀ place ∈ syntaxTree.located (.statement stmt),rule.occursAt place.2 = true → place.1.all rule.takes = true := by
  rw [rule.checkQuery_reached,← syntaxTree.count_iff]
  constructor
  · intro same
    have count := same.length_eq
    rwa [LintRule.due,rule.flatMap_length,rule.flatMap_length] at count
  · intro count
    have fewer : ((syntaxTree.reached rule.takes (.statement stmt)).flatMap (ownOf rule.visit)).Sublist (rule.due stmt) :=
      (List.filter_sublist.map _).flatMap _
    have equal := fewer.eq_of_length (by rw [LintRule.due,rule.flatMap_length,rule.flatMap_length,count])
    rw [equal]

end Exactness

section Missed

local instance lintPrinter : Printer := ⟨fun _ => "",fun _ => "",fun _ => ""⟩
local instance lintCase : CaseMap := ascii
local instance lintNames : NamePrinter := ⟨fun _ => ""⟩

-- SELECT a = NULL FROM t
def nullProjected : Query :=
  ⟨none,.select ⟨[.unnamedExpr comparison],[⟨.table [.identifier ⟨"t",false⟩] none none [],[]⟩],none,.expressions [],
    none,[]⟩,[],none,[]⟩
where comparison : Expr := .binaryOp (.identifier ⟨"a",false⟩) .eq (.value ⟨.null,Span.empty⟩)

theorem projected_null_unreported :
    ¬ (LintRule.notEqualNull.checkQuery (.query nullProjected)).Perm (LintRule.notEqualNull.due (.query nullProjected)) := by
  intro same
  have there : ([SyntaxStep.statementQuery,.scope [],.body,.selectBody,.projection],SyntaxNode.expr nullProjected.comparison) ∈
      syntaxTree.located (.statement (.query nullProjected)) := by
    refine Tree.located_part (y := .query nullProjected) List.mem_cons_self ?_
    refine Tree.located_part (y := .scope nullProjected) List.mem_cons_self ?_
    refine Tree.located_part (y := .body nullProjected.body) List.mem_cons_self ?_
    refine Tree.located_part List.mem_cons_self ?_
    refine Tree.located_part List.mem_cons_self ?_
    exact syntaxTree.located_self _
  have due : (LintRule.notEqualNull.visit nullProjected.comparison).head (by decide) ∈
      LintRule.notEqualNull.due (.query nullProjected) :=
    List.mem_flatMap.mpr ⟨_,List.mem_map.mpr ⟨_,there,rfl⟩,List.head_mem _⟩
  exact absurd (same.mem_iff.mpr due) List.not_mem_nil

end Missed

end Scythe.LintRules
