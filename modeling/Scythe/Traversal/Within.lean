import Scythe.Traversal.Statements

namespace Scythe
open Numbering Itinerary

def slots (marks : List (Option Occurrence)) : List Slot := marks.filterMap fun mark => mark.bind Occurrence.slot

@[simp] theorem slots_nil : slots [] = [] := rfl
@[simp] theorem slots_node (marks : List (Option Occurrence)) : slots (none :: marks) = slots marks := rfl
@[simp] theorem slots_append (first last : List (Option Occurrence)) :
    slots (first ++ last) = slots first ++ slots last := List.filterMap_append

theorem mem_slots {stmt : Statement} {slot : Slot} :
    slot ∈ slots stmt.marks ↔ ∃ o ∈ stmt.occurrences,o.slot = some slot := by
  simp [slots,Statement.occurrences,List.mem_filterMap,List.reduceOption_mem_iff,Option.bind_eq_some_iff]

-- The route comes by no placeholder but those of the tree it goes through.
def Within (route : Route) (marks : List (Option Occurrence)) : Prop := ∀ slot ∈ route.mentions,slot ∈ slots marks

structure RoutesWithin (routes : Routes) : Prop where
  inferExprType : ∀ e,Within (routes.inferExprType e) e.marks
  collectParamsFromWhere : ∀ e,Within (routes.collectParamsFromWhere e) e.marks
  collectParamFromExprWithTypeNullable : ∀ e,Within (routes.collectParamFromExprWithTypeNullable e) e.marks
  collectParamFromAny : ∀ e,Within (routes.collectParamFromAny e) e.marks
  analyzeQuery : ∀ query,Within (routes.analyzeQuery query) query.marks
  analyzeSetExpr : ∀ setExpr,Within (routes.analyzeSetExpr setExpr) setExpr.marks
  addTableFactorToScope : ∀ tf,Within (routes.addTableFactorToScope tf) tf.marks

theorem Within.skip {marks : List (Option Occurrence)} : Within .skip marks := nofun

theorem Within.seq {first last : Route} {marks : List (Option Occurrence)} (head : Within first marks)
    (tail : Within last marks) : Within (first.seq last) marks := by
  intro slot member
  rcases List.mem_append.mp member with before | after
  · exact head slot before
  · exact tail slot after

theorem Within.bind {name : String} {marks : List (Option Occurrence)} : Within (.bind name) marks := nofun

theorem Within.mono {route : Route} {marks marks' : List (Option Occurrence)} (within : Within route marks)
    (sub : slots marks ⊆ slots marks') : Within route marks' := fun slot member => sub (within slot member)

theorem Within.each {route : α → Route} {items : List α} {marks : List (Option Occurrence)}
    (each : ∀ item ∈ items,Within (route item) marks) : Within (Route.each route items) marks := by
  intro slot member
  obtain ⟨itinerary,known,mentioned⟩ := mem_mentions_all.mp member
  obtain ⟨item,present,rfl⟩ := List.mem_map.mp known
  exact each item present slot mentioned

theorem Within.optional {route : α → Route} {item : Option α} {marks : List (Option Occurrence)}
    (each : ∀ value ∈ item,Within (route value) marks) : Within (Route.optional route item) marks := by
  cases item with
  | none => exact .skip
  | some value => exact each value rfl

theorem within_registerAt {body : Route} {e : Expr} {marks : List (Option Occurrence)}
    (written : slots e.marks ⊆ slots marks) (within : Within body marks) :
    Within (Route.registerAt e body) marks := by
  unfold Route.registerAt
  cases is : e.placeholder? with
  | none => exact .skip
  | some occurrence =>
    refine .seq ?_ within
    cases e with
    | value vws =>
      simp only [Expr.placeholder?,Option.map_eq_some_iff] at is
      obtain ⟨token,placeholder,rfl⟩ := is
      intro slot member
      apply written
      unfold Route.place at member
      split at member
      · rename_i slot' known
        simp only [mentions,List.mem_singleton] at member
        subst member
        unfold ValueWithSpan.placeholder? at placeholder
        split at placeholder
        · rename_i text value
          cases placeholder
          simp [slots,ValueWithSpan.occurrences,value,known]
        · cases placeholder
      · cases member
    | _ => cases is

theorem within_registered {e : Expr} {marks : List (Option Occurrence)} (written : slots e.marks ⊆ slots marks) :
    Within (Route.registered e) marks := within_registerAt written .skip

theorem slots_exprMarks {es : List Expr} {e : Expr} (member : e ∈ es) : slots e.marks ⊆ slots (exprMarks es) := by
  induction es with
  | nil => cases member
  | cons head es ih =>
    rw [exprMarks,slots_append]
    rcases List.mem_cons.mp member with rfl | later
    · exact List.subset_append_left _ _
    · exact List.Subset.trans (ih later) (List.subset_append_right _ _)

theorem slots_rowMarks {rows : List (List Expr)} {row : List Expr} (member : row ∈ rows) :
    slots (exprMarks row) ⊆ slots (rowMarks rows) := by
  induction rows with
  | nil => cases member
  | cons head rows ih =>
    rw [rowMarks,slots_append]
    rcases List.mem_cons.mp member with rfl | later
    · exact List.subset_append_left _ _
    · exact List.Subset.trans (ih later) (List.subset_append_right _ _)

theorem slots_caseMarks {conditions : List CaseWhen} {caseWhen : CaseWhen} (member : caseWhen ∈ conditions) :
    slots caseWhen.condition.marks ⊆ slots (caseMarks conditions) ∧
      slots caseWhen.result.marks ⊆ slots (caseMarks conditions) := by
  induction conditions with
  | nil => cases member
  | cons head conditions ih =>
    rw [caseMarks,slots_append]
    rcases List.mem_cons.mp member with rfl | later
    · obtain ⟨condition,result⟩ := caseWhen
      simp
    · exact ⟨List.subset_append_of_subset_right _ (ih later).1,List.subset_append_of_subset_right _ (ih later).2⟩

theorem slots_argMarks {args : List FunctionArg} {e : Expr} (member : e ∈ functionArgExprs args) :
    slots e.marks ⊆ slots (argMarks args) := by
  obtain ⟨arg,present,is⟩ := List.mem_filterMap.mp member
  induction args with
  | nil => cases present
  | cons head args ih =>
    rw [argMarks,slots_append]
    rcases List.mem_cons.mp present with rfl | later
    · refine List.subset_append_of_subset_left _ ?_
      split at is
      · cases is; simp
      · cases is; simp
      · cases is
    · exact List.subset_append_of_subset_right _ (ih (List.mem_filterMap.mpr ⟨arg,later,is⟩) later)

theorem slots_functionArgs {func : Function} {e : Expr} (member : e ∈ getFunctionArgs func) :
    slots e.marks ⊆ slots func.marks := by
  unfold getFunctionArgs at member
  split at member
  · rename_i args clause unread is
    refine List.Subset.trans (slots_argMarks member) ?_
    obtain ⟨name,args,filter,treatment,overWindow,unread⟩ := func
    cases is
    simp
  · cases member

theorem mem_plainArgs {func : Function} {e : Expr} : .expr e ∈ Route.plainArgs func ↔ e ∈ getFunctionArgs func := by
  unfold Route.plainArgs getFunctionArgs functionArgExprs
  cases func.args with
  | list args clause unread =>
    simp only [List.mem_filterMap]
    refine exists_congr fun arg => and_congr_right fun _ => ?_
    rcases arg with ⟨name,_ | _ | _⟩ | ⟨name,_ | _ | _⟩ | ⟨_ | _ | _⟩ <;> simp
  | _ => simp

theorem slots_soleCall {func inner : Function} (sole : Route.soleCall func = some inner) :
    slots inner.marks ⊆ slots func.marks := by
  unfold Route.soleCall at sole
  split at sole
  · rename_i call only
    cases sole
    have member : Expr.function inner ∈ getFunctionArgs func := mem_plainArgs.mp (by rw [only]; simp)
    simpa using slots_functionArgs member
  · cases sole

theorem slots_joinMarks {joins : List Join} {join : Join} (member : join ∈ joins) :
    slots join.relation.marks ⊆ slots (joinMarks joins) := by
  induction joins with
  | nil => cases member
  | cons head joins ih =>
    rw [joinMarks,slots_append]
    rcases List.mem_cons.mp member with rfl | later
    · obtain ⟨relation,operator,condition⟩ := join
      simp
    · exact List.subset_append_of_subset_right _ (ih later)

theorem slots_tableMarks {sources : List TableWithJoins} {twj : TableWithJoins} (member : twj ∈ sources) :
    slots twj.marks ⊆ slots (tableMarks sources) := by
  induction sources with
  | nil => cases member
  | cons head sources ih =>
    rw [tableMarks,slots_append]
    rcases List.mem_cons.mp member with rfl | later
    · exact List.subset_append_left _ _
    · exact List.subset_append_of_subset_right _ (ih later)

theorem slots_itemMarks {items : List SelectItem} {item : SelectItem} (member : item ∈ items) :
    slots item.marks ⊆ slots (itemMarks items) := by
  induction items with
  | nil => cases member
  | cons head items ih =>
    rw [itemMarks,slots_append]
    rcases List.mem_cons.mp member with rfl | later
    · exact List.subset_append_left _ _
    · exact List.subset_append_of_subset_right _ (ih later)

theorem slots_cteMarks {ctes : List Cte} {cte : Cte} (member : cte ∈ ctes) :
    slots cte.query.marks ⊆ slots (cteMarks ctes) := by
  induction ctes with
  | nil => cases member
  | cons head ctes ih =>
    rw [cteMarks,slots_append]
    rcases List.mem_cons.mp member with rfl | later
    · obtain ⟨tableAlias,query⟩ := cte
      simp
    · exact List.subset_append_of_subset_right _ (ih later)

theorem within_registeredEach {es : List Expr} {marks : List (Option Occurrence)}
    (written : ∀ e ∈ es,slots e.marks ⊆ slots marks) : Within (Route.each Route.registered es) marks :=
  .each fun e member => within_registered (written e member)

theorem within_collectParamFromExpr (e : Expr) : Within (Route.collectParamFromExpr e) e.marks := by
  cases e with
  | value vws => exact within_registered (List.Subset.refl _)
  | cast kind inner dataType => exact within_registered (by simp)
  | _ => exact .skip

theorem within_analyzeLimit (limitClause : LimitClause) :
    Within (Route.analyzeLimit limitClause) limitClause.marks := by
  cases limitClause with
  | limitOffset limit offset unread =>
    refine .seq (.optional fun e is => (within_collectParamFromExpr e).mono ?_)
      (.optional fun e is => (within_collectParamFromExpr e).mono ?_)
    · cases is; simp
    · cases is; simp
  | offsetCommaLimit offset limit =>
    exact .seq ((within_collectParamFromExpr limit).mono (by simp))
      ((within_collectParamFromExpr offset).mono (by simp))

section Functions
variable {routes : Routes} (within : RoutesWithin routes)
include within

theorem within_tryBindParamFromComparison {paramSide colSide : Expr} {marks : List (Option Occurrence)}
    (param : slots paramSide.marks ⊆ slots marks) (col : slots colSide.marks ⊆ slots marks) :
    Within (Route.tryBindParamFromComparison routes paramSide colSide) marks := by
  have body := (within.inferExprType colSide).mono col
  cases paramSide with
  | value vws => exact within_registerAt param body
  | cast kind inner dataType => exact within_registerAt (by simpa using param) body
  | _ => exact .skip

theorem within_collectParamFromExprWithTypeNullable (e : Expr) :
    Within (Route.collectParamFromExprWithTypeNullable routes e) e.marks := by
  have again := within.collectParamFromExprWithTypeNullable
  cases e with
  | value vws => exact within_registered (List.Subset.refl _)
  | cast kind inner dataType =>
    simp only [Route.collectParamFromExprWithTypeNullable]
    split
    · exact within_registered (by simp)
    · exact (again inner).mono (by simp)
  | nested inner => exact (again inner).mono (by simp)
  | unaryOp op inner => exact (again inner).mono (by simp)
  | binaryOp left op right =>
    exact .seq ((again left).mono (by simp)) ((again right).mono (by simp))
  | function func => exact .each fun arg member => (again arg).mono (by simpa using slots_functionArgs member)
  | case operand conditions elseResult =>
    refine .seq (.optional fun op is => (again op).mono ?_) (.seq (.each fun caseWhen member => ?_)
      (.optional fun op is => (again op).mono ?_))
    · cases is; simp
    · obtain ⟨condition,result⟩ := slots_caseMarks member
      exact .seq ((again _).mono (List.Subset.trans condition (by simp)))
        ((again _).mono (List.Subset.trans result (by simp)))
    · cases is; simp
  | _ => exact .skip

theorem within_collectParamFromAny (e : Expr) : Within (Route.collectParamFromAny routes e) e.marks := by
  cases e with
  | value vws => exact within_registered (List.Subset.refl _)
  | cast kind inner dataType => exact within_registered (by simp)
  | nested inner => exact (within.collectParamFromAny inner).mono (by simp)
  | array elems =>
    exact .each fun elem member => within_registered (by simpa using slots_exprMarks member)
  | _ => exact .skip

theorem within_inferEach {es : List Expr} {marks : List (Option Occurrence)}
    (written : ∀ e ∈ es,slots e.marks ⊆ slots marks) : Within (Route.each routes.inferExprType es) marks :=
  .each fun e member => (within.inferExprType e).mono (written e member)

theorem within_anyNullable {es : List Expr} {marks : List (Option Occurrence)}
    (written : ∀ e ∈ es,slots e.marks ⊆ slots marks) : Within (Route.anyNullable routes es) marks := by
  induction es with
  | nil => exact .skip
  | cons e es ih =>
    refine .seq ((within.inferExprType e).mono (written e List.mem_cons_self)) fun slot member => ?_
    exact ih (fun e' later => written e' (List.mem_cons_of_mem _ later)) slot member

theorem within_inlineFields {es : List Expr} {marks : List (Option Occurrence)}
    (written : ∀ e ∈ es,slots e.marks ⊆ slots marks) : Within (Route.inlineFields routes es) marks := by
  fun_induction Route.inlineFields routes es with
  | case1 key value rest literal ih =>
    refine .seq ((within.inferExprType value).mono (written value (by simp))) (ih fun e later => written e ?_)
    simp [later]
  | case2 => exact .skip
  | case3 => exact .skip

theorem within_inferRow {es : List Expr} {marks : List (Option Occurrence)}
    (written : ∀ e ∈ es,slots e.marks ⊆ slots marks) : Within (Route.inferRow routes es) marks := by
  unfold Route.inferRow
  split
  · rename_i only
    exact (within.inferExprType only).mono (written only List.mem_cons_self)
  · exact within_inferEach within written

theorem within_inferCase (operand : Option Expr) (conditions : List CaseWhen) (elseResult : Option Expr) :
    Within (Route.inferCase routes operand conditions elseResult) (Expr.case operand conditions elseResult).marks := by
  refine .seq (.optional fun op is => (within.inferExprType op).mono ?_) (.seq (.each fun caseWhen member => ?_)
    (.optional fun op is => (within.inferExprType op).mono ?_))
  · cases is; simp
  · obtain ⟨condition,result⟩ := slots_caseMarks member
    refine .seq ((within.inferExprType _).mono ?_) (.seq (within_registered ?_) ((within.inferExprType _).mono ?_))
    · exact List.Subset.trans condition (by simp)
    · exact List.Subset.trans condition (by simp)
    · exact List.Subset.trans result (by simp)
  · cases is; simp

theorem within_generateSeries (args : List FunctionArg) : Within (Route.generateSeries routes args) (argMarks args) :=
  within_inferEach within fun _ member => slots_argMarks (List.mem_of_mem_take member)

theorem within_tableWithJoins (twj : TableWithJoins) :
    Within ((routes.addTableFactorToScope twj.relation).seq (Route.addJoins routes twj.joins)) twj.marks := by
  obtain ⟨relation,joins⟩ := twj
  refine .seq ((within.addTableFactorToScope relation).mono (by simp)) ?_
  refine .each fun join member => (within.addTableFactorToScope join.relation).mono ?_
  exact List.Subset.trans (slots_joinMarks member) (by simp)

theorem within_buildScopeFromFrom (sources : List TableWithJoins) :
    Within (Route.buildScopeFromFrom routes sources) (tableMarks sources) :=
  .each fun twj member => (within_tableWithJoins within twj).mono (slots_tableMarks member)

theorem within_projectItem (item : SelectItem) : Within (Route.projectItem routes item) item.marks := by
  have both : ∀ e : Expr,∀ marks,slots e.marks ⊆ slots marks →
      Within ((routes.collectParamsFromWhere e).seq (routes.inferExprType e)) marks := fun e marks written =>
    .seq ((within.collectParamsFromWhere e).mono written) ((within.inferExprType e).mono written)
  cases item with
  | unnamedExpr e => exact both e _ (by simp)
  | exprWithAlias e name => exact both e _ (by simp)
  | exprWithAliases e names => exact both e _ (by simp)
  | _ => exact .skip

theorem within_optionalWhere {selection : Option Expr} {marks : List (Option Occurrence)}
    (written : slots (optionMarks selection) ⊆ slots marks) :
    Within (Route.optional routes.collectParamsFromWhere selection) marks := by
  refine .optional fun e is => (within.collectParamsFromWhere e).mono ?_
  cases is
  exact written

theorem within_analyzeSelect (select : Select) : Within (Route.analyzeSelect routes select) select.marks := by
  obtain ⟨projection,sources,selection,groupBy,having,unread⟩ := select
  refine .seq ((within_buildScopeFromFrom within sources).mono (by simp)) (.seq ?_ (.seq ?_ ?_))
  · refine .each fun item member => (within_projectItem within item).mono ?_
    exact List.Subset.trans (slots_itemMarks member) (by simp)
  · exact within_optionalWhere within fun slot => by simp +contextual
  · exact within_optionalWhere within fun slot => by simp +contextual

theorem within_analyzeSetExpr (setExpr : SetExpr) : Within (Route.analyzeSetExpr routes setExpr) setExpr.marks := by
  cases setExpr with
  | select select => exact (within_analyzeSelect within select).mono (by simp)
  | query query => exact (within.analyzeQuery query).mono (by simp)
  | setOperation op left right =>
    exact .seq ((within.analyzeSetExpr left).mono (by simp))
      ((within.analyzeSetExpr right).mono (by simp))
  | values rows =>
    refine .each fun row member => within_inferEach within fun e taken => ?_
    simpa using
      List.Subset.trans (slots_exprMarks (List.mem_of_mem_take taken)) (slots_rowMarks member)
  | other unread => exact .skip

variable [Text.CaseMap] {catalog : Catalog}

theorem within_inlineJsonObjectFields (func : Function) :
    Within (Route.inlineJsonObjectFields routes func) func.marks := by
  unfold Route.inlineJsonObjectFields
  split
  · exact .skip
  · dsimp only
    split
    · exact .skip
    · exact within_inlineFields within fun e member => slots_functionArgs member

theorem within_inferNestedAggregateType (func : Function) (wrap : WrapArray) :
    Within (Route.inferNestedAggregateType catalog routes func wrap) func.marks := by
  unfold Route.inferNestedAggregateType
  split
  · split
    · rename_i inner sole
      exact (within_inlineJsonObjectFields within inner).mono (slots_soleCall sole)
    · exact .skip
  · exact .skip

theorem within_inferArm (func : Function) (arm : FunctionArm) :
    Within (Route.inferArm catalog routes func arm) func.marks := by
  have args : ∀ e ∈ getFunctionArgs func,slots e.marks ⊆ slots func.marks := fun _ => slots_functionArgs
  cases arm with
  | strictInAll neutralType => exact within_anyNullable within args
  | jsonAgg => exact within_inferNestedAggregateType within func .yes
  | coalesce => exact .seq (within_inferEach within args) (within_registeredEach args)
  | row => exact within_inferRow within args
  | concat =>
    simp only [Route.inferArm]
    split
    · exact within_anyNullable within args
    · exact .skip
  | greatestLeast => exact within_inferEach within args
  | dateTrunc =>
    simp only [Route.inferArm]
    split
    · rename_i is
      exact (within.inferExprType _).mono (args _ (by rw [is]; simp))
    · exact .skip
  | lagLead =>
    simp only [Route.inferArm]
    split
    · exact .skip
    · split
      · rename_i is
        exact (within.inferExprType _).mono (args _ (by rw [is]; simp))
      · exact .skip
  | jsonbSetLax =>
    simp only [Route.inferArm]
    split
    · exact .skip
    · exact within_anyNullable within fun e member => args e (List.mem_of_mem_take member)
  | _ => exact .skip

omit within in
theorem slots_callArgument {arg : FunctionArg} {call : CallArgument} (is : callArgument arg = some call) :
    slots call.expression.marks ⊆ slots arg.marks := by
  unfold callArgument at is
  split at is <;> cases is <;> simp

omit within in
theorem slots_callExpressions {args : List FunctionArg} {calls : List CallArgument}
    (is : catalogCallArgumentsFromArgs args = some calls) :
    ∀ e ∈ Route.callExpressions calls,slots e.marks ⊆ slots (argMarks args) := by
  induction args generalizing calls with
  | nil => cases is; exact nofun
  | cons arg args ih =>
    obtain ⟨call,one,rest⟩ := Option.bind_eq_some_iff.mp is
    obtain ⟨calls',others,done⟩ := Option.bind_eq_some_iff.mp rest
    cases done
    intro e member
    rw [argMarks,slots_append]
    rcases List.mem_cons.mp member with rfl | later
    · exact List.subset_append_of_subset_left _ (slots_callArgument one)
    · exact List.subset_append_of_subset_right _ (ih others e later)

omit within in
theorem slots_functionCalls {func : Function} {calls : List CallArgument}
    (is : catalogCallArguments func = some calls) :
    ∀ e ∈ Route.callExpressions calls,slots e.marks ⊆ slots func.marks := by
  unfold catalogCallArguments at is
  split at is
  · rename_i written
    obtain ⟨name,args,filter,treatment,overWindow,unread⟩ := func
    cases written
    exact fun e member => List.Subset.trans (slots_callExpressions is e member)
      (by simp)
  · cases is
    exact nofun

theorem within_inferCatalogFunctionType (func : Function) :
    Within (Route.inferCatalogFunctionType catalog routes func) func.marks := by
  unfold Route.inferCatalogFunctionType
  split
  · rename_i calls is
    have written := slots_functionCalls is
    exact .seq (within_inferEach within written) (within_registeredEach written)
  · exact .skip

theorem within_inferFunctionType (func : Function) :
    Within (Route.inferFunctionType catalog routes func) func.marks := by
  refine .seq (.optional fun e first => (within.inferExprType e).mono ?_) ?_
  · exact slots_functionArgs (List.mem_of_mem_head? first)
  · split
    · exact within_inferArm within func _
    · exact within_inferCatalogFunctionType within func

theorem within_collectParamsFromWhere (e : Expr) :
    Within (Route.collectParamsFromWhere routes (Route.inferFunctionType catalog routes) e) e.marks := by
  have where' := within.collectParamsFromWhere
  have type := within.inferExprType
  have typed := within.collectParamFromExprWithTypeNullable
  cases e with
  | binaryOp left op right =>
    have l : slots left.marks ⊆ slots (Expr.binaryOp left op right).marks := by simp
    have r : slots right.marks ⊆ slots (Expr.binaryOp left op right).marks := by simp
    simp only [Route.collectParamsFromWhere]
    split
    · exact .seq (within_tryBindParamFromComparison within l r) (.seq (within_tryBindParamFromComparison within r l)
        (.seq ((type left).mono l) ((type right).mono r)))
    · exact .seq ((where' left).mono l) ((where' right).mono r)
  | between colExpr negated low high =>
    exact .seq ((type colExpr).mono (by simp)) (.seq ((typed low).mono (by simp))
      ((typed high).mono (by simp)))
  | like colExpr negated pattern => exact (typed pattern).mono (by simp)
  | iLike colExpr negated pattern => exact (typed pattern).mono (by simp)
  | inList colExpr list negated =>
    refine .seq ((type colExpr).mono (by simp)) (within_registeredEach fun e member => ?_)
    exact List.Subset.trans (slots_exprMarks member) (by simp)
  | isNull inner => exact (where' inner).mono (by simp)
  | isNotNull inner => exact (where' inner).mono (by simp)
  | nested inner => exact (where' inner).mono (by simp)
  | unaryOp op inner => exact (where' inner).mono (by simp)
  | anyOp left op right =>
    exact .seq ((type left).mono (by simp)) (.seq (within_registered (by simp))
      ((within.collectParamFromAny right).mono (by simp)))
  | inSubquery inner subquery negated => exact (within.analyzeQuery subquery).mono (by simp)
  | «exists» subquery negated => exact (within.analyzeQuery subquery).mono (by simp)
  | subquery subquery => exact (within.analyzeQuery subquery).mono (by simp)
  | case operand conditions elseResult =>
    refine .seq (.each fun caseWhen member => ?_) (.optional fun op is => (type op).mono ?_)
    · obtain ⟨condition,result⟩ := slots_caseMarks member
      exact .seq ((where' _).mono (List.Subset.trans condition (by simp)))
        ((type _).mono (List.Subset.trans result (by simp)))
    · cases is; simp
  | function func =>
    have inside : slots func.marks ⊆ slots (Expr.function func).marks := by simp
    exact .seq ((within_inferFunctionType within func).mono inside) (.each fun arg member =>
      (where' arg).mono (List.Subset.trans (slots_functionArgs member) inside))
  | cast kind inner dataType =>
    exact .seq (within_registered (by simp)) ((where' inner).mono (by simp))
  | _ => exact type _

theorem within_inferExprType (e : Expr) : Within (Route.inferExprType catalog routes e) e.marks := by
  have type := within.inferExprType
  have typed := within.collectParamFromExprWithTypeNullable
  cases e with
  | value vws => exact within_registered (List.Subset.refl _)
  | cast kind inner dataType =>
    exact .seq ((type inner).mono (by simp)) (within_registered (by simp))
  | function func => exact (within_inferFunctionType within func).mono (by simp)
  | binaryOp left op right =>
    exact .seq ((type left).mono (by simp)) ((type right).mono (by simp))
  | unaryOp op inner => exact (type inner).mono (by simp)
  | nested inner => exact (type inner).mono (by simp)
  | inList colExpr list negated =>
    refine .seq ((type colExpr).mono (by simp)) (within_registeredEach fun e member => ?_)
    exact List.Subset.trans (slots_exprMarks member) (by simp)
  | inSubquery colExpr subquery negated => exact (type colExpr).mono (by simp)
  | between colExpr negated low high =>
    exact .seq ((type colExpr).mono (by simp)) (.seq ((typed low).mono (by simp))
      (.seq ((typed high).mono (by simp)) (.seq ((type low).mono (by simp))
        ((type high).mono (by simp)))))
  | like colExpr negated pattern =>
    exact .seq ((type colExpr).mono (by simp)) (.seq ((typed pattern).mono (by simp))
      ((type pattern).mono (by simp)))
  | iLike colExpr negated pattern =>
    exact .seq ((type colExpr).mono (by simp)) (.seq ((typed pattern).mono (by simp))
      ((type pattern).mono (by simp)))
  | case operand conditions elseResult => exact within_inferCase within operand conditions elseResult
  | subquery query => exact (within.analyzeQuery query).mono (by simp)
  | anyOp left op right =>
    exact .seq ((type left).mono (by simp)) (.seq (within_registered (by simp))
      ((within.collectParamFromAny right).mono (by simp)))
  | allOp left op right =>
    exact .seq ((type left).mono (by simp)) (within_registered (by simp))
  | array elem =>
    exact .optional fun e first => (type e).mono
      (by simpa using slots_exprMarks (List.mem_of_mem_head? first))
  | tuple exprs =>
    exact within_inferRow within fun e member => by simpa using slots_exprMarks member
  | extract inner => exact (type inner).mono (by simp)
  | substring inner bounds => exact (type inner).mono (by simp)
  | trim inner characters => exact (type inner).mono (by simp)
  | position needle haystack =>
    exact .seq ((type needle).mono (by simp)) ((type haystack).mono (by simp))
  | atTimeZone timestamp timeZone => exact (type timestamp).mono (by simp)
  | compoundFieldAccess root accessChain => exact (type root).mono (by simp)
  | ceil inner => exact (type inner).mono (by simp)
  | floor inner => exact (type inner).mono (by simp)
  | _ => exact .skip

theorem within_catalogFunctionColumns (functionName : String) (args : List FunctionArg) :
    Within (Route.catalogFunctionColumns catalog routes functionName args) (argMarks args) := by
  unfold Route.catalogFunctionColumns
  split
  · rename_i calls is
    have written := slots_callExpressions is
    exact .seq (within_inferEach within written) (within_registeredEach written)
  · exact .skip

theorem within_tableColumns (tableName : String) (args : Option (List FunctionArg)) :
    Within (Route.tableColumns catalog routes tableName args) (optionArgMarks args) := by
  have known : Within (if tableName ∈ knownFunctions then Route.knownFunctionColumns routes tableName args else .skip)
      (optionArgMarks args) := by
    split
    · unfold Route.knownFunctionColumns
      split
      · cases args with
        | none => exact within_generateSeries within []
        | some args => exact within_generateSeries within args
      · exact .skip
    · exact .skip
  show Within (if _ then _ else _) _
  split
  · exact .skip
  · cases args with
    | none => exact known
    | some args =>
      cases is : catalog.getFunctions tableName with
      | none => exact known
      | some overloads => exact within_catalogFunctionColumns within tableName args

theorem within_functionColumns (funcName : String) (args : List FunctionArg) :
    Within (Route.functionColumns catalog routes funcName args) (argMarks args) := by
  unfold Route.functionColumns
  split
  · exact within_generateSeries within args
  · split
    · exact .skip
    · exact within_catalogFunctionColumns within funcName args

theorem within_addTableFactorToScope (tf : TableFactor) :
    Within (Route.addTableFactorToScope catalog routes tf) tf.marks := by
  cases tf with
  | table name tableAlias args unread =>
    exact (within_tableColumns within _ args).mono (by simp)
  | derived subquery tableAlias => exact (within.analyzeQuery subquery).mono (by simp)
  | nestedJoin tables => exact (within_tableWithJoins within tables).mono (by simp)
  | function name args tableAlias =>
    exact (within_functionColumns within _ args).mono (by simp)
  | _ => exact .skip

theorem within_analyzeCte (recursive : Bool) (cte : Cte) :
    Within (Route.analyzeCte routes recursive cte) cte.query.marks := by
  have query := within.analyzeQuery cte.query
  unfold Route.analyzeCte
  dsimp only
  split
  · rename_i op left right body
    refine .seq ((within.analyzeSetExpr left).mono ?_) (.seq .bind (.seq query .bind))
    obtain ⟨tableAlias,⟨withClause,body',orderBy,limitClause,unread⟩⟩ := cte
    cases body
    simp
  · exact .seq query .bind

theorem within_analyzeQuery (query : Query) : Within (Route.analyzeQuery routes query) query.marks := by
  obtain ⟨withClause,body,orderBy,limitClause,unread⟩ := query
  refine .seq (.optional fun clause is => ?_) (.seq ((within.analyzeSetExpr body).mono (by simp))
    (.optional fun clause is => (within_analyzeLimit clause).mono ?_))
  · cases is
    obtain ⟨recursive,ctes⟩ := clause
    refine .each fun cte member => (within_analyzeCte within _ cte).mono ?_
    exact List.Subset.trans (slots_cteMarks member) (by simp)
  · cases is
    intro slot
    simp +contextual

end Functions

theorem slots_body (query : Query) : slots query.body.marks ⊆ slots query.marks := by
  obtain ⟨withClause,body,orderBy,limitClause,unread⟩ := query
  simp

section Statements
variable {routes : Routes} (within : RoutesWithin routes)

theorem slots_assignmentMarks {assignments : List Assignment} {assign : Assignment} (member : assign ∈ assignments) :
    slots assign.value.marks ⊆ slots (assignmentMarks assignments) := by
  induction assignments with
  | nil => cases member
  | cons head assignments ih =>
    rw [assignmentMarks,List.flatMap_cons,slots_append]
    rcases List.mem_cons.mp member with rfl | later
    · simp
    · exact List.subset_append_of_subset_right _ (ih later)

include within

theorem within_returningItem (item : SelectItem) : Within (Route.returningItem routes item) item.marks := by
  cases item with
  | unnamedExpr e => exact (within.inferExprType e).mono (by simp)
  | exprWithAlias e name => exact (within.inferExprType e).mono (by simp)
  | exprWithAliases e names => exact (within.inferExprType e).mono (by simp)
  | _ => exact .skip

theorem within_analyzeReturning (returning : Option (List SelectItem)) :
    Within (Route.analyzeReturning routes returning) (returningMarks returning) := by
  refine .optional fun items is => .each fun item member => (within_returningItem within item).mono ?_
  cases is
  exact slots_itemMarks member

theorem within_collectInsertRow (effective : List (Option EffectiveColumn)) (i : Nat) (row : List Expr) :
    Within (Route.collectInsertRow routes effective i row) (exprMarks row) := by
  induction row generalizing i with
  | nil => exact .skip
  | cons e es ih =>
    have value : Within (Route.collectInsertValue routes effective i e) e.marks := ?_
    · exact .seq (value.mono (by simp)) ((ih (i + 1)).mono (by simp))
    unfold Route.collectInsertValue
    split
    · exact within.collectParamFromExprWithTypeNullable e
    · exact .seq (within.inferExprType e) (within.collectParamFromExprWithTypeNullable e)

variable [Text.CaseMap] {catalog : Catalog}

theorem within_collectInsertParams (tableName : String) (targetCols : List String) (source : SetExpr) :
    Within (Route.collectInsertParams catalog routes tableName targetCols source) source.marks := by
  cases source with
  | values rows =>
    refine .each fun row member => (within_collectInsertRow within _ 0 row).mono ?_
    simpa using slots_rowMarks member
  | select select => exact (within_analyzeSelect within select).mono (by simp)
  | query query => exact (within.analyzeQuery query).mono (by simp)
  | _ => exact .skip

theorem within_assignments (tableName : String) (assignments : List Assignment) :
    Within (Route.each (Route.collectAssignment catalog routes tableName) assignments)
      (assignmentMarks assignments) := by
  refine .each fun assign member => ?_
  unfold Route.collectAssignment
  split
  · exact (within.collectParamFromExprWithTypeNullable _).mono (slots_assignmentMarks member)
  · exact .skip

theorem within_collectOnConflict (tableName : String) (on : Option OnInsert) :
    Within (Route.collectOnConflict catalog routes tableName on) ((on.map OnInsert.marks).getD []) := by
  rcases on with _ | (assignments | (_ | doUpdate))
  · exact .skip
  · exact .skip
  · exact .skip
  · exact .seq ((within_assignments within tableName doUpdate.assignments).mono (by simp [OnInsert.marks]))
      (within_optionalWhere within (by simp [OnInsert.marks]))

theorem within_analyzeStatementWith (stmt : Statement) :
    Within (Route.analyzeStatementWith catalog routes stmt) stmt.marks := by
  cases stmt with
  | query query => exact within.analyzeQuery query
  | insert statement =>
    show Within (Route.analyzeInsert catalog routes statement) statement.marks
    unfold Route.analyzeInsert
    split
    · exact .skip
    · refine .seq (.optional fun source is => (within_collectInsertParams within _ _ source.body).mono ?_) (.seq ?_ ?_)
      · refine List.Subset.trans (slots_body source) fun slot => ?_
        simp +contextual [Insert.marks,show statement.source = some source from is]
      · refine (within_collectOnConflict within _ statement.on).mono fun slot => ?_
        simp +contextual [Insert.marks]
      · refine (within_analyzeReturning within statement.returning).mono fun slot => ?_
        simp +contextual [Insert.marks]
  | update statement =>
    refine .seq (.optional fun sources is => (within_buildScopeFromFrom within sources).mono fun slot => ?_)
      (.seq ((within_assignments within _ statement.assignments).mono fun slot => ?_)
        (.seq (within_optionalWhere within fun slot => ?_)
          ((within_analyzeReturning within statement.returning).mono fun slot => ?_)))
    · simp +contextual [Statement.marks,Update.marks,show statement.sources = some sources from is]
    · simp +contextual [Statement.marks,Update.marks]
    · simp +contextual [Statement.marks,Update.marks]
    · simp +contextual [Statement.marks,Update.marks]
  | delete statement =>
    refine .seq (.optional fun sources is => (within_buildScopeFromFrom within sources).mono fun slot => ?_)
      (.seq (within_optionalWhere within fun slot => ?_)
        ((within_analyzeReturning within statement.returning).mono fun slot => ?_))
    · simp +contextual [Statement.marks,Delete.marks,show statement.usingTables = some sources from is]
    · simp +contextual [Statement.marks,Delete.marks]
    · simp +contextual [Statement.marks,Delete.marks]
  | other => exact .skip

end Statements

variable [Text.CaseMap]

theorem routes_within (catalog : Catalog) (fuel : Nat) : RoutesWithin (routes catalog fuel) := by
  induction fuel with
  | zero => constructor <;> (intros; exact .skip)
  | succ fuel ih => exact {
      inferExprType := within_inferExprType ih
      collectParamsFromWhere := within_collectParamsFromWhere ih
      collectParamFromExprWithTypeNullable := within_collectParamFromExprWithTypeNullable ih
      collectParamFromAny := within_collectParamFromAny ih
      analyzeQuery := within_analyzeQuery ih
      analyzeSetExpr := within_analyzeSetExpr ih
      addTableFactorToScope := within_addTableFactorToScope ih }

-- A statement's log holds nothing but the statement's own placeholders.
theorem statement_within {catalog : Catalog} {stmt : Statement} {log : List (Visit Slot)}
    (member : log ∈ (stmt.route catalog).logs) {slot : Slot} (met : slot ∈ keys log) :
    ∃ o ∈ stmt.occurrences,o.slot = some slot := by
  obtain ⟨outcome,known,rfl⟩ := List.mem_map.mp member
  have mentioned := keys_mentioned known slot met
  exact mem_slots.mp (within_analyzeStatementWith (routes_within catalog stmt.fuel) stmt slot mentioned)

end Scythe
