import Scythe.Traversal.Rules

namespace Scythe
open Effect Numbering

theorem follows_collectParamFromElements (leftTi : TypeInfo) (leftName : String) (i : Nat) (elems : List Expr) :
    Follows (collectParamFromElements leftTi leftName i elems) (Route.each Route.registered elems) := by
  induction elems generalizing i with
  | nil => exact follows_pure ()
  | cons elem elems ih => exact (follows_registered elem _).discard.bind fun _ => ih (i + 1)

theorem follows_collectParamsFromList (list : List Expr) (colTi : TypeInfo) (colName : String) :
    Follows (collectParamsFromList list colTi colName) (Route.each Route.registered list) :=
  .forM fun item _ => (follows_registered item _).discard

theorem bound_indices (function : CatalogFunction) (arguments : List CallArgument) (i : Nat) (used : List Nat)
    (next : Nat) (found : bindArguments function arguments i used next = some (bindings,used')) :
    bindings.map (·.1) = List.range' i arguments.length := by
  induction arguments generalizing i used next bindings used' with
  | nil =>
    cases found
    rfl
  | cons argument arguments ih =>
    obtain ⟨⟨index,following⟩,-,found⟩ := Option.bind_eq_some_iff.mp found
    dsimp only at found
    split at found
    · cases found
    · obtain ⟨⟨later,used''⟩,rest,done⟩ := Option.map_eq_some_iff.mp found
      cases done
      simp only [List.map_cons,List.length_cons,List.range'_succ,ih _ _ _ rest]

theorem mapM_some {f : α → Option β} {xs : List α} {ys : List β} (mapped : xs.mapM' f = some ys) :
    ∀ x ∈ xs,(f x).isSome := by
  induction xs generalizing ys with
  | nil => exact nofun
  | cons x xs ih =>
    obtain ⟨y,head,rest⟩ := Option.bind_eq_some_iff.mp mapped
    obtain ⟨tail,tailMapped,-⟩ := Option.bind_eq_some_iff.mp rest
    intro x' member
    rcases List.mem_cons.mp member with rfl | later
    · rw [head]; rfl
    · exact ih tailMapped x' later

theorem follows_inferValue {catalog : Catalog} (vws : ValueWithSpan) :
    Follows (inferValue catalog (.value vws) vws) (Route.registered (.value vws)) := by
  unfold inferValue
  cases is : vws.value with
  | placeholder token => exact (follows_registered _ _).discard.map _
  | _ =>
    have nothing : Route.registered (.value vws) = .skip := by
      simp [Route.registered,Route.registerAt,Expr.placeholder?,ValueWithSpan.placeholder?,is]
    rw [nothing]
    exact follows_pure _

section Functions
variable {self : Methods} {routes : Routes} (follow : MethodsFollow self routes)
include follow

theorem follows_inferAll (scope : Scope) (es : List Expr) :
    Follows (inferAll self scope es) (Route.each routes.inferExprType es) := by
  induction es with
  | nil => exact follows_pure []
  | cons e es ih => exact (follow.inferExprType e scope).bind fun ti => ih.map _

theorem follows_anyNullable (scope : Scope) (es : List Expr) :
    Follows (anyNullable self scope es) (Route.anyNullable routes es) := by
  induction es with
  | nil => exact follows_pure false
  | cons e es ih =>
    refine (follow.inferExprType e scope).bind fun ti => ?_
    split
    · exact .maybe_not _ (follows_pure true)
    · exact ih.maybe

theorem follows_inlineFields (scope : Scope) (es : List Expr) :
    Follows (inlineFields self scope es) (Route.inlineFields routes es) := by
  fun_induction Route.inlineFields routes es with
  | case1 key value rest literal ih =>
    rw [inlineFields]
    cases is : stringLiteralValue key with
    | none => simp [is] at literal
    | some name => exact (follow.inferExprType value scope).bind fun ti => ih.map _
  | case2 key value rest literal =>
    rw [inlineFields]
    cases is : stringLiteralValue key with
    | none => exact follows_pure none
    | some name => simp [is] at literal
  | case3 es short =>
    rw [inlineFields]
    · exact follows_pure (some [])
    · exact short

theorem follows_inferRow (es : List Expr) (scope : Scope) :
    Follows (inferRow self es scope) (Route.inferRow routes es) := by
  have several := (follows_inferAll follow scope es).discard.map fun _ => TypeInfo.new untypeableRowMarker true
  match es,several with
  | [only],_ => exact follow.inferExprType only scope
  | [],several => exact several
  | _ :: _ :: _,several => exact several

theorem follows_getFirstArgType (func : Function) (scope : Scope) :
    Follows (getFirstArgType self func scope) (Route.optional routes.inferExprType (getFunctionArgs func).head?) := by
  unfold getFirstArgType
  cases getFunctionArgs func with
  | nil => exact follows_pure none
  | cons e es => exact (follow.inferExprType e scope).map some

theorem follows_inferOperand (operand : Option Expr) (scope : Scope) :
    Follows (inferOperand self operand scope) (Route.optional routes.inferExprType operand) := by
  cases operand with
  | none => exact follows_pure none
  | some op => exact (follow.inferExprType op scope).map _

variable [Text.CaseMap] {catalog : Catalog}

theorem follows_comparisonRegistration (colSide : Expr) (scope : Scope) (op : Option BinaryOperator)
    (castType : Option String) :
    Follows (comparisonRegistration self colSide scope op castType) (routes.inferExprType colSide) :=
  (follow.inferExprType colSide scope).map _

theorem follows_tryBindParamFromComparison (paramSide colSide : Expr) (scope : Scope) (op : Option BinaryOperator) :
    Follows (tryBindParamFromComparison catalog self paramSide colSide scope op)
      (Route.tryBindParamFromComparison routes paramSide colSide) := by
  cases paramSide with
  | value vws => exact ((follows_comparisonRegistration follow colSide scope op none).registerAt _).discard
  | cast kind inner dataType => exact ((follows_comparisonRegistration follow colSide scope op _).registerAt inner).discard
  | _ => exact follows_pure ()

omit follow in
theorem follows_collectParamFromExpr (e : Expr) (name typeStr : String) :
    Follows (collectParamFromExpr catalog e name typeStr) (Route.collectParamFromExpr e) := by
  cases e with
  | value vws => exact (follows_registered _ _).discard
  | cast kind inner dataType => exact (follows_registered inner _).discard
  | _ => exact follows_pure ()

theorem follows_collectParamFromExprWithTypeNullable (e : Expr) (typeStr name : String) (nullable : Bool) :
    Follows (collectParamFromExprWithTypeNullable catalog self e typeStr name nullable)
      (Route.collectParamFromExprWithTypeNullable routes e) := by
  have again := fun e => follow.collectParamFromExprWithTypeNullable e typeStr name nullable
  cases e with
  | value vws => exact (follows_registered _ _).discard
  | cast kind inner dataType =>
    simp only [collectParamFromExprWithTypeNullable,Route.collectParamFromExprWithTypeNullable]
    cases is : inner.placeholder? with
    | none =>
      simp only [registerAt,is,Option.isSome_none,Bool.false_eq_true,if_false]
      exact again inner
    | some occurrence =>
      simp only [Option.isSome_some,if_true]
      refine (follows_registered inner _).then_skip_of fun answer answers => ?_
      simp only [registerAt,is] at answers
      rw [placed_answer answers]
      exact follows_pure ()
  | nested inner => exact again inner
  | unaryOp op inner => exact again inner
  | binaryOp left op right => exact (again left).bind fun _ => again right
  | function func => exact .forM fun arg _ => again arg
  | case operand conditions elseResult =>
    refine (Follows.optional again).bind fun _ => (Follows.forM fun caseWhen _ => ?_).bind fun _ => .optional again
    exact (again caseWhen.condition).bind fun _ => again caseWhen.result
  | _ => exact follows_pure ()

theorem follows_collectParamFromAny (e : Expr) (leftTi : TypeInfo) (leftName : String) :
    Follows (collectParamFromAny catalog self e leftTi leftName) (Route.collectParamFromAny routes e) := by
  cases e with
  | value vws => exact (follows_registered _ _).discard
  | cast kind inner dataType => exact (follows_registered inner _).discard
  | nested inner => exact follow.collectParamFromAny inner leftTi leftName
  | array elems => exact follows_collectParamFromElements leftTi leftName 0 elems
  | _ => exact follows_pure ()

theorem follows_collectParamsFromComparison (left right : Expr) (op : BinaryOperator) (symbol : String)
    (scope : Scope) :
    Follows (collectParamsFromComparison catalog self left right op symbol scope)
      (Route.collectParamsFromComparison routes left right) := by
  refine (follows_tryBindParamFromComparison follow left right scope _).bind fun _ => ?_
  refine (follows_tryBindParamFromComparison follow right left scope _).bind fun _ => ?_
  refine (follow.inferExprType left scope).bind fun leftTi => ?_
  refine (follow.inferExprType right scope).then_skip fun rightTi => ?_
  split
  · exact follows_typeError _ .skip
  · exact follows_pure ()

theorem follows_collectParamsFromWhere {inferFunctionType : Function → Scope → Analysis TypeInfo}
    {functionRoute : Function → Route}
    (infer : ∀ func scope,Follows (inferFunctionType func scope) (functionRoute func)) (e : Expr) (scope : Scope) :
    Follows (collectParamsFromWhere catalog self inferFunctionType e scope)
      (Route.collectParamsFromWhere routes functionRoute e) := by
  have where' := fun e => follow.collectParamsFromWhere e scope
  have type := fun e => follow.inferExprType e scope
  have typed := follow.collectParamFromExprWithTypeNullable
  cases e with
  | binaryOp left op right =>
    simp only [collectParamsFromWhere,Route.collectParamsFromWhere]
    cases comparisonSymbol op with
    | some symbol => exact follows_collectParamsFromComparison follow left right op symbol scope
    | none => exact (where' left).bind fun _ => where' right
  | between colExpr negated low high =>
    exact (type colExpr).bind fun colTi => (typed low _ _ _).bind fun _ => typed high _ _ _
  | like colExpr negated pattern => exact typed pattern _ _ _
  | iLike colExpr negated pattern => exact typed pattern _ _ _
  | inList colExpr list negated => exact (type colExpr).bind fun colTi => follows_collectParamsFromList list _ _
  | isNull inner => exact where' inner
  | isNotNull inner => exact where' inner
  | nested inner => exact where' inner
  | unaryOp op inner => exact where' inner
  | anyOp left op right =>
    exact (type left).bind fun leftTi => (follows_registered right _).discard.bind fun _ =>
      follow.collectParamFromAny right leftTi _
  | inSubquery inner subquery negated => exact (follow.analyzeQuery subquery).attempt.discard
  | «exists» subquery negated => exact (follow.analyzeQuery subquery).attempt.discard
  | subquery subquery => exact (follow.analyzeQuery subquery).attempt.discard
  | case operand conditions elseResult =>
    refine (Follows.forM fun caseWhen _ => ?_).bind fun _ => .optional fun elseExpr => (type elseExpr).discard
    exact (where' caseWhen.condition).bind fun _ => (type caseWhen.result).discard
  | function func => exact (infer func scope).discard.bind fun _ => .forM fun arg _ => where' arg
  | cast kind inner dataType => exact (follows_registered inner _).discard.bind fun _ => where' inner
  | _ => exact (type _).discard

theorem follows_inlineJsonObjectFields (func : Function) (scope : Scope) :
    Follows (inlineJsonObjectFields self func scope) (Route.inlineJsonObjectFields routes func) := by
  unfold inlineJsonObjectFields Route.inlineJsonObjectFields
  split
  · exact follows_pure none
  · dsimp only
    split
    · exact follows_pure none
    · exact follows_inlineFields follow scope _

theorem follows_inferInlineObjectAggregateType (func : Function) (scope : Scope) :
    Follows (inferInlineObjectAggregateType self func scope) (Route.inlineJsonObjectFields routes func) := by
  refine (follows_inlineJsonObjectFields follow func scope).then_skip fun fields => ?_
  cases fields with
  | none => exact follows_pure none
  | some fields =>
    dsimp only
    split
    · exact follows_pure none
    · split
      · exact (follows_typeError _ .skip).map _
      · exact (follows_pushPendingNested fields).map _

omit follow in
theorem follows_inferRelationAggregateType (func : Function) (scope : Scope) (wrap : WrapArray)
    (aliasName : String) : Follows (inferRelationAggregateType func scope wrap aliasName) .skip := by
  unfold inferRelationAggregateType
  dsimp only
  split
  · exact follows_pure none
  · split
    · exact (follows_typeError _ .skip).map _
    · exact (follows_pushPendingNested _).map _

omit follow in
theorem getFunctionArgShapes_map (func : Function) (scope : Scope) :
    getFunctionArgShapes func scope = (Route.plainArgs func).map fun arg => classifyFunctionArgExpr arg scope := by
  unfold getFunctionArgShapes Route.plainArgs
  cases func.args with
  | list args clause unread =>
    simp only [List.map_filterMap]
    congr 1
    funext arg
    cases arg <;> rfl
  | _ => rfl

-- Only a call can be classified as one.
omit follow in
theorem classify_function {arg : FunctionArgExpr} {scope : Scope} {inner : Function} :
    classifyFunctionArgExpr arg scope = .expr (.function inner) ↔ arg = .expr (.function inner) := by
  constructor
  · intro is
    unfold classifyFunctionArgExpr at is
    split at is
    · split at is <;> cases is
    · cases is; rfl
    · split at is <;> cases is
    · cases is
  · rintro rfl; rfl

omit follow in
theorem shapes_call {func inner : Function} {scope : Scope} :
    getFunctionArgShapes func scope = [.expr (.function inner)] ↔ Route.soleCall func = some inner := by
  rw [getFunctionArgShapes_map,Route.soleCall]
  constructor
  · intro is
    obtain ⟨arg,only,shape⟩ := List.map_eq_singleton_iff.mp is
    rw [only,classify_function.mp shape]
  · intro is
    split at is
    · rename_i call only
      cases is
      rw [only]
      rfl
    · cases is

theorem follows_inferNestedAggregateType (func : Function) (scope : Scope) (wrap : WrapArray) :
    Follows (inferNestedAggregateType catalog self func scope wrap)
      (Route.inferNestedAggregateType catalog routes func wrap) := by
  unfold inferNestedAggregateType Route.inferNestedAggregateType
  split
  · cases wrap with
    | no =>
      split
      · rename_i isYes _; cases isYes
      · exact follows_inferRelationAggregateType func scope _ _
      · exact follows_pure none
    | yes =>
      cases sole : Route.soleCall func with
      | some inner =>
        rw [shapes_call.mpr sole]
        exact follows_inferInlineObjectAggregateType follow inner scope
      | none =>
        split
        · rename_i inner shape
          rw [shapes_call.mp shape] at sole
          cases sole
        · exact follows_inferRelationAggregateType func scope _ _
        · exact follows_pure none
  · exact follows_pure none

-- Without an array around it only a relation makes a nested aggregate.
theorem follows_wholeRow (func : Function) (scope : Scope) :
    Follows (inferNestedAggregateType catalog self func scope .no) .skip := by
  have nested : Follows (inferNestedAggregateType catalog self func scope .no) _ :=
    follows_inferNestedAggregateType follow func scope .no
  have nothing : Route.inferNestedAggregateType catalog routes func .no = .skip := by
    simp [Route.inferNestedAggregateType]
  rwa [nothing] at nested

theorem follows_inferCoalesce (func : Function) (scope : Scope) :
    Follows (inferCoalesce catalog self func scope)
      ((Route.each routes.inferExprType (getFunctionArgs func)).seq
        (Route.each Route.registered (getFunctionArgs func))) :=
  (follows_inferAll follow scope _).bind fun _ =>
    (Follows.forM fun arg _ => (follows_registered arg _).discard).then_skip fun _ => follows_pure _

theorem follows_inferLagLead (func : Function) (scope : Scope) (ti : TypeInfo) :
    Follows (inferLagLead self func scope ti) (Route.inferArm catalog routes func .lagLead) := by
  simp only [inferLagLead,Route.inferArm]
  split
  · exact follows_pure _
  · rcases getFunctionArgs func with _ | ⟨value,_ | ⟨offset,_ | ⟨default,rest⟩⟩⟩
    · exact follows_pure _
    · exact follows_pure _
    · exact follows_pure _
    · exact (follow.inferExprType default scope).map _

theorem follows_inferArm (func : Function) (scope : Scope) (firstArgTi : Option TypeInfo) (arm : FunctionArm) :
    Follows (inferArm catalog self func scope firstArgTi arm) (Route.inferArm catalog routes func arm) := by
  cases arm with
  | strictInAll neutralType => exact (follows_anyNullable follow scope _).map _
  | jsonAgg => exact (follows_inferNestedAggregateType follow func scope .yes).map _
  | rowToJson => exact (follows_wholeRow follow func scope).map _
  | toJson => exact (follows_wholeRow follow func scope).map _
  | coalesce => exact follows_inferCoalesce follow func scope
  | row => exact follows_inferRow follow _ scope
  | concat =>
    simp only [inferArm,Route.inferArm]
    split
    · exact (follows_anyNullable follow scope _).map _
    · exact follows_pure _
  | greatestLeast => exact (follows_inferAll follow scope _).map _
  | dateTrunc =>
    simp only [inferArm,Route.inferArm]
    rcases getFunctionArgs func with _ | ⟨unit,_ | ⟨source,rest⟩⟩
    · exact follows_pure _
    · exact follows_pure _
    · exact (follow.inferExprType source scope).map _
  | lagLead => exact follows_inferLagLead follow func scope _
  | jsonbSetLax =>
    simp only [inferArm,Route.inferArm]
    split
    · exact follows_pure _
    · exact (follows_anyNullable follow scope _).map _
  | _ => exact follows_pure _

-- The overload that is chosen has a declaration for every argument in turn.
omit follow in
theorem match_bindings {function : CatalogFunction} {callArguments : List CallArgument} {inferred : List TypeInfo}
    {found : CatalogFunctionMatch} (is : matchCatalogFunction catalog function callArguments inferred = some found) :
    found.bindings.map (·.1) = List.range' 0 callArguments.length ∧
      ∀ binding ∈ found.bindings,(found.function.arguments[binding.2]?).isSome := by
  obtain ⟨⟨bindings,used⟩,bound,rest⟩ := Option.bind_eq_some_iff.mp is
  dsimp only at rest
  split at rest
  · cases rest
  · obtain ⟨scores,scored,done⟩ := Option.bind_eq_some_iff.mp rest
    cases done
    refine ⟨bound_indices function callArguments 0 [] 0 bound,fun binding member => ?_⟩
    obtain ⟨score,one⟩ := Option.isSome_iff_exists.mp (mapM_some scored binding member)
    obtain ⟨info,-,rest⟩ := Option.bind_eq_some_iff.mp one
    obtain ⟨declaration,declared,-⟩ := Option.bind_eq_some_iff.mp rest
    rw [declared]
    rfl

omit follow in
theorem best_bindings {overloads : List CatalogFunction} {callArguments : List CallArgument}
    {inferred : List TypeInfo} {best : CatalogFunctionMatch}
    (is : resolveOverload catalog overloads callArguments inferred = .best best) :
    best.bindings.map (·.1) = List.range' 0 callArguments.length ∧
      ∀ binding ∈ best.bindings,(best.function.arguments[binding.2]?).isSome := by
  have found : best ∈ overloads.filterMap fun function =>
      matchCatalogFunction catalog function callArguments inferred := by
    rw [←List.mem_insertionSort fun a b : CatalogFunctionMatch => a.score ≤ b.score]
    unfold resolveOverload at is
    dsimp only at is
    split at is
    · cases is
    · rename_i only sorted
      cases is
      simp [sorted]
    · rename_i first second rest sorted
      split at is
      · cases is
      · cases is
        simp [sorted]
  obtain ⟨function,-,matched⟩ := List.mem_filterMap.mp found
  exact match_bindings matched

omit follow in
theorem follows_bindings (found : CatalogFunctionMatch) (callArguments : List CallArgument)
    (bindings : List (Nat × Nat)) (i k : Nat) (indices : bindings.map (·.1) = List.range' i k)
    (declared : ∀ binding ∈ bindings,(found.function.arguments[binding.2]?).isSome)
    (size : i + k = callArguments.length) :
    Follows (registerCatalogFunctionParams catalog {found with bindings:=bindings} callArguments)
      (Route.each Route.registered (Route.callExpressions (callArguments.drop i))) := by
  induction bindings generalizing i k with
  | nil =>
    cases k with
    | succ k => cases indices
    | zero =>
      rw [List.drop_eq_nil_of_le (by omega)]
      exact follows_pure ()
  | cons binding bindings ih =>
    cases k with
    | zero => cases indices
    | succ k =>
      obtain ⟨first,rest⟩ := List.cons.inj indices
      have inside : i < callArguments.length := by omega
      obtain ⟨declaration,is⟩ := Option.isSome_iff_exists.mp (declared binding List.mem_cons_self)
      have later := ih (i + 1) k rest (fun b member => declared b (List.mem_cons_of_mem _ member)) (by omega)
      rw [List.drop_eq_getElem_cons inside]
      refine Follows.bind ?_ fun _ => later
      dsimp only at first ⊢
      rw [first,List.getElem?_eq_getElem inside,is]
      exact (follows_registered _ _).discard

omit follow in
theorem follows_registerCatalogFunctionParams {overloads : List CatalogFunction} {callArguments : List CallArgument}
    {inferred : List TypeInfo} {best : CatalogFunctionMatch}
    (is : resolveOverload catalog overloads callArguments inferred = .best best) :
    Follows (registerCatalogFunctionParams catalog best callArguments)
      (Route.each Route.registered (Route.callExpressions callArguments)) :=
  follows_bindings best callArguments best.bindings 0 callArguments.length (best_bindings is).1 (best_bindings is).2
    (Nat.zero_add _)

theorem follows_inferCatalogFunctionType (func : Function) (scope : Scope) :
    Follows (inferCatalogFunctionType catalog self func scope)
      (Route.inferCatalogFunctionType catalog routes func) := by
  unfold inferCatalogFunctionType Route.inferCatalogFunctionType
  cases catalog.getFunctions func.callName with
  | none => exact follows_pure none
  | some overloads =>
    cases catalogCallArguments func with
    | none => exact follows_pure none
    | some callArguments =>
      refine (follows_inferAll follow scope _).bind fun inferred => ?_
      cases is : resolveOverload catalog overloads callArguments inferred with
      | none => exact .maybe_not _ ((follows_typeError _ .skip).map _)
      | ambiguous => exact .maybe_not _ (follows_pure _)
      | best best => exact ((follows_registerCatalogFunctionParams is).map _).maybe

theorem follows_inferFunctionType (func : Function) (scope : Scope) :
    Follows (inferFunctionType catalog self func scope) (Route.inferFunctionType catalog routes func) := by
  refine (follows_getFirstArgType follow func scope).bind fun firstArgTi => ?_
  cases functionArm func.callName with
  | some arm => exact follows_inferArm follow func scope firstArgTi arm
  | none => exact (follows_inferCatalogFunctionType follow func scope).map _

theorem follows_inferBranches (operand : Option (Expr × TypeInfo)) (scope : Scope) (conditions : List CaseWhen) :
    Follows (inferBranches self operand scope conditions) (Route.each (fun caseWhen : CaseWhen =>
      (routes.inferExprType caseWhen.condition).seq <|
        (Route.registered caseWhen.condition).seq (routes.inferExprType caseWhen.result)) conditions) := by
  induction conditions with
  | nil => exact follows_pure []
  | cons caseWhen rest ih =>
    refine Follows.assoc ((follow.inferExprType caseWhen.condition scope).discard.bind fun _ => ?_)
    refine Follows.assoc ((follows_registered caseWhen.condition _).discard.bind fun _ => ?_)
    exact (follow.inferExprType caseWhen.result scope).bind fun ti => ih.map _

theorem follows_inferCase (operand : Option Expr) (conditions : List CaseWhen) (elseResult : Option Expr)
    (scope : Scope) :
    Follows (inferCase self operand conditions elseResult scope)
      (Route.inferCase routes operand conditions elseResult) := by
  refine (follows_inferOperand follow operand scope).bind fun operandTi => ?_
  refine (follows_inferBranches follow operandTi scope conditions).bind fun branches => ?_
  cases elseResult with
  | none => exact follows_pure _
  | some elseExpr => exact (follow.inferExprType elseExpr scope).map _

theorem follows_inferSubquery (query : Query) :
    Follows (inferSubquery self query) (routes.analyzeQuery query) := by
  refine (follow.analyzeQuery query).attempt.then_skip fun columns => ?_
  split <;> exact follows_pure _

theorem follows_inferExprType (e : Expr) (scope : Scope) :
    Follows (inferExprType catalog self e scope) (Route.inferExprType catalog routes e) := by
  have type := fun e => follow.inferExprType e scope
  have typed := follow.collectParamFromExprWithTypeNullable
  cases e with
  | value vws => exact follows_inferValue vws
  | cast kind inner dataType => exact (type inner).bind fun _ => (follows_registered inner _).discard.map _
  | function func => exact follows_inferFunctionType follow func scope
  | binaryOp left op right => exact (type left).bind fun _ => (type right).map _
  | unaryOp op inner => exact (type inner).map _
  | nested inner => exact type inner
  | inList colExpr list negated => exact (type colExpr).bind fun _ => (follows_collectParamsFromList list _ _).map _
  | inSubquery colExpr subquery negated => exact (type colExpr).map _
  | between colExpr negated low high =>
    refine (type colExpr).bind fun colTi => (typed low _ _ _).bind fun _ => (typed high _ _ _).bind fun _ => ?_
    exact (type low).bind fun _ => (type high).map _
  | like colExpr negated pattern => exact (type colExpr).bind fun _ => (typed pattern _ _ _).bind fun _ => (type pattern).map _
  | iLike colExpr negated pattern => exact (type colExpr).bind fun _ => (typed pattern _ _ _).bind fun _ => (type pattern).map _
  | case operand conditions elseResult => exact follows_inferCase follow operand conditions elseResult scope
  | subquery query => exact follows_inferSubquery follow query
  | anyOp left op right =>
    refine (type left).bind fun leftTi => (follows_registered right _).discard.bind fun _ => ?_
    exact (follow.collectParamFromAny right leftTi _).map _
  | allOp left op right => exact (type left).bind fun _ => (follows_registered right _).discard.map _
  | array elem =>
    cases elem with
    | nil => exact follows_pure _
    | cons first rest => exact (type first).map _
  | tuple exprs => exact follows_inferRow follow exprs scope
  | extract inner => exact (type inner).map _
  | substring inner bounds => exact (type inner).map _
  | trim inner characters => exact (type inner).map _
  | position needle haystack => exact (type needle).bind fun _ => (type haystack).map _
  | atTimeZone timestamp timeZone => exact (type timestamp).map _
  | compoundFieldAccess root accessChain => exact (type root).map _
  | ceil inner => exact (type inner).map _
  | floor inner => exact (type inner).map _
  | _ => exact follows_pure _

end Functions
end Scythe
