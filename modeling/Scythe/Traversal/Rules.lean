import Scythe.Route

namespace Scythe
open Effect Numbering

def Bound (names : List String) (w : Walk) : Prop := ∀ name, name ∈ names ↔ name ∈ w.ctes

-- A walk that comes to its end leaves one of the route's logs behind.
def Follows (program : Analysis α) (route : Route) : Prop :=
  ∀ w names,Bound names w → ∀ value w',program.walk w = some (.ok value,w') →
    ∃ visits names',(visits,names') ∈ route.outcomes names ∧ w'.log = w.log ++ visits ∧ Bound names' w'

theorem walk_bind {program : Analysis α} {next : α → Analysis β} {w w' : Walk}
    (ran : (program >>= next).walk w = some (.ok value,w')) :
    ∃ middle between,program.walk w = some (.ok middle,between) ∧ (next middle).walk between = some (.ok value,w') := by
  unfold Analysis.walk at ran ⊢
  rw [Program.bind_eq,Handler.run_bind] at ran
  exact chain_some ran

theorem follows_pure (value : α) : Follows (pure value) .skip := by
  intro w names bound result w' ran
  cases ran
  exact ⟨[],names,by simp [Itinerary.outcomes],by simp,bound⟩

def Answers (program : Analysis α) (value : α) : Prop := ∃ w w',program.walk w = some (.ok value,w')

theorem Follows.bind_of {program : Analysis α} {next : α → Analysis β} {first last : Route}
    (head : Follows program first) (tail : ∀ value,Answers program value → Follows (next value) last) :
    Follows (program >>= next) (first.seq last) := by
  intro w names bound value w' ran
  obtain ⟨middle,between,firstRan,lastRan⟩ := walk_bind ran
  obtain ⟨before,names',member,log,bound'⟩ := head w names bound middle between firstRan
  obtain ⟨after,names'',member',log',bound''⟩ :=
    tail middle ⟨w,between,firstRan⟩ between names' bound' value w' lastRan
  refine ⟨before ++ after,names'',?_,by rw [log',log,List.append_assoc],bound''⟩
  exact List.mem_flatMap.mpr ⟨_,member,List.mem_map.mpr ⟨_,member',rfl⟩⟩

theorem Follows.bind {program : Analysis α} {next : α → Analysis β} {first last : Route}
    (head : Follows program first) (tail : ∀ value,Follows (next value) last) :
    Follows (program >>= next) (first.seq last) := head.bind_of fun value _ => tail value

-- Steps that come by nothing leave no trace in the route.
theorem Follows.bind_skip {program : Analysis α} {next : α → Analysis β} {last : Route}
    (head : Follows program .skip) (tail : ∀ value,Follows (next value) last) : Follows (program >>= next) last := by
  intro w names bound value w' ran
  obtain ⟨visits,names',member,rest⟩ := (head.bind tail) w names bound value w' ran
  refine ⟨visits,names',?_,rest⟩
  simpa [Itinerary.outcomes] using member

theorem Follows.then_skip_of {program : Analysis α} {next : α → Analysis β} {first : Route}
    (head : Follows program first) (tail : ∀ value,Answers program value → Follows (next value) .skip) :
    Follows (program >>= next) first := by
  intro w names bound value w' ran
  obtain ⟨visits,names',member,rest⟩ := (head.bind_of tail) w names bound value w' ran
  refine ⟨visits,names',?_,rest⟩
  simpa [Itinerary.outcomes] using member

theorem Follows.then_skip {program : Analysis α} {next : α → Analysis β} {first : Route}
    (head : Follows program first) (tail : ∀ value,Follows (next value) .skip) : Follows (program >>= next) first :=
  head.then_skip_of fun value _ => tail value

theorem Follows.map {program : Analysis α} {route : Route} (head : Follows program route) (f : α → β) :
    Follows (program >>= fun value => pure (f value)) route := head.then_skip fun value => follows_pure (f value)

theorem Follows.discard {program : Analysis α} {route : Route} (head : Follows program route) :
    Follows (discard program) route := head.map fun _ => ()

theorem Follows.assoc {program : Analysis α} {first middle last : Route}
    (follows : Follows program (first.seq (middle.seq last))) : Follows program ((first.seq middle).seq last) := by
  intro w names bound value w' ran
  rw [Itinerary.outcomes_seq_assoc]
  exact follows w names bound value w' ran

theorem Follows.maybe {program : Analysis α} {route : Route} (follows : Follows program route) :
    Follows program (.maybe route) := by
  intro w names bound value w' ran
  obtain ⟨visits,names',member,rest⟩ := follows w names bound value w' ran
  exact ⟨visits,names',List.mem_cons_of_mem _ member,rest⟩

theorem Follows.maybe_not {program : Analysis α} (route : Route) (follows : Follows program .skip) :
    Follows program (.maybe route) := by
  intro w names bound value w' ran
  obtain ⟨visits,names',member,rest⟩ := follows w names bound value w' ran
  refine ⟨visits,names',?_,rest⟩
  simp only [Itinerary.outcomes,List.mem_singleton] at member
  simp [Itinerary.outcomes,member]

theorem Follows.forM {items : List α} {body : α → Analysis Unit} {route : α → Route}
    (each : ∀ item ∈ items,Follows (body item) (route item)) : Follows (items.forM body) (Route.each route items) := by
  induction items with
  | nil => exact follows_pure ()
  | cons item items ih =>
    exact (each item List.mem_cons_self).bind fun _ => ih fun item member => each item (List.mem_cons_of_mem _ member)

theorem Follows.optional {item : Option α} {body : α → Analysis Unit} {route : α → Route}
    (each : ∀ item,Follows (body item) (route item)) : Follows (item.forM body) (Route.optional route item) := by
  cases item with
  | none => exact follows_pure ()
  | some item => exact each item

-- Where the walk stops nothing is left to follow.
theorem follows_fail (failure : ScytheError) (route : Route) : Follows (Analysis.fail failure : Analysis α) route := by
  intro w names bound value w' ran
  cases ran

theorem follows_typeError (message : String) (route : Route) : Follows (Analysis.typeError message) route := by
  intro w names bound value w' ran
  cases ran

theorem follows_diverge (route : Route) : Follows (Analysis.diverge : Analysis α) route := by
  intro w names bound value w' ran
  cases ran

theorem follows_ctes : Follows Analysis.ctes .skip := by
  intro w names bound value w' ran
  cases ran
  exact ⟨[],names,by simp [Itinerary.outcomes],by simp,bound⟩

theorem follows_pendingNested : Follows Analysis.pendingNested .skip := by
  intro w names bound value w' ran
  cases ran
  exact ⟨[],names,by simp [Itinerary.outcomes],by simp,bound⟩

theorem follows_pushPendingNested (fields : List NestedFieldInfo) :
    Follows (Analysis.pushPendingNested fields) .skip := by
  intro w names bound value w' ran
  cases ran
  exact ⟨[],names,by simp [Itinerary.outcomes],by simp,bound⟩

theorem follows_insertCte (name : String) (columns : List ScopeColumn) :
    Follows (Analysis.insertCte name columns) (.bind name) := by
  intro w names bound value w' ran
  cases ran
  refine ⟨[],name :: names,by simp [Itinerary.outcomes],by simp,fun other => ?_⟩
  rw [List.mem_cons,bound other]
  exact (AList.mem_insert _).symm

theorem follows_ofExcept (result : Except ScytheError α) : Follows (Analysis.ofExcept result) .skip := by
  cases result with
  | error failure => exact follows_fail failure .skip
  | ok value => exact follows_pure value

theorem Follows.place {body : Analysis Registration} {route : Route} (occurrence : Occurrence)
    (follows : Follows body route) : Follows (Analysis.place occurrence body) ((Route.place occurrence).seq route) := by
  intro w names bound value w' ran
  obtain ⟨answer,between,placed,done⟩ := chain_some ran
  cases done
  simp only [Walk.handler,walkScoped] at placed
  split at placed
  · cases placed
  · rename_i slot known
    obtain ⟨registration,between,bodyRan,done⟩ := chain_some placed
    cases done
    obtain ⟨visits,names',member,log,bound'⟩ := follows (w.visit slot) names bound registration _ bodyRan
    refine ⟨.one slot :: visits,names',?_,by simp [log,Walk.visit],bound'⟩
    simpa [Route.place,known,Itinerary.outcomes] using member

theorem Follows.derived {body : Analysis (List AnalyzedColumn)} {route : Route} (follows : Follows body route) :
    Follows (Analysis.derived body) (.table route) := by
  intro w names bound value w' ran
  obtain ⟨answer,between,nested,done⟩ := chain_some ran
  cases done
  simp only [Walk.handler,walkScoped] at nested
  split at nested
  · cases nested
  · cases nested
  · rename_i columns sub bodyRan
    cases nested
    obtain ⟨visits,names',member,log,-⟩ := follows w.sub names bound _ sub bodyRan
    refine ⟨[.table visits],names,?_,?_,bound⟩
    · exact List.mem_map.mpr ⟨_,member,rfl⟩
    · simpa [Walk.merge,Walk.sub] using log

theorem Follows.attempt {body : Analysis (List AnalyzedColumn)} {route : Route} (follows : Follows body route) :
    Follows (Analysis.attempt body) route := by
  intro w names bound value w' ran
  obtain ⟨answer,between,nested,done⟩ := chain_some ran
  cases done
  obtain ⟨columns,between,bodyRan,done⟩ := chain_some nested
  cases done
  exact follows w names bound _ _ bodyRan

theorem Follows.registerAt {body : Analysis Registration} {route : Route} (e : Expr) (follows : Follows body route) :
    Follows (Scythe.registerAt e body) (Route.registerAt e route) := by
  unfold Scythe.registerAt Route.registerAt
  cases e.placeholder? with
  | none => exact follows_pure false
  | some occurrence => exact follows.place occurrence

theorem follows_registered (e : Expr) (registration : Registration) :
    Follows (registerAt e (return registration)) (Route.registered e) := (follows_pure registration).registerAt e

theorem placed_answer {occurrence : Occurrence} {body : Analysis Registration} {answer : Bool}
    (answers : Answers (Analysis.place occurrence body) answer) : answer = true := by
  obtain ⟨w,w',ran⟩ := answers
  obtain ⟨given,between,placed,done⟩ := chain_some ran
  cases done
  simp only [Walk.handler,walkScoped] at placed
  split at placed
  · cases placed
  · obtain ⟨registration,between,-,done⟩ := chain_some placed
    cases done
    rfl

theorem Bound.new : Bound [] .new := fun name => by simp [Walk.new]

-- The recursive calls follow their routes.
structure MethodsFollow (calls : Methods) (routes : Routes) : Prop where
  inferExprType : ∀ e scope,Follows (calls.inferExprType e scope) (routes.inferExprType e)
  collectParamsFromWhere : ∀ e scope,Follows (calls.collectParamsFromWhere e scope) (routes.collectParamsFromWhere e)
  collectParamFromExprWithTypeNullable : ∀ e typeStr name nullable,
    Follows (calls.collectParamFromExprWithTypeNullable e typeStr name nullable)
      (routes.collectParamFromExprWithTypeNullable e)
  collectParamFromAny : ∀ e leftTi leftName,
    Follows (calls.collectParamFromAny e leftTi leftName) (routes.collectParamFromAny e)
  analyzeQuery : ∀ query,Follows (calls.analyzeQuery query) (routes.analyzeQuery query)
  analyzeSetExpr : ∀ setExpr,Follows (calls.analyzeSetExpr setExpr) (routes.analyzeSetExpr setExpr)
  addTableFactorToScope : ∀ tf scope nullable,
    Follows (calls.addTableFactorToScope tf scope nullable) (routes.addTableFactorToScope tf)

-- The CTEs in sight are those that the route has bound.
theorem Follows.unbound {next : AHashMap (List ScopeColumn) → Analysis α} {route : Route} (tableName : String)
    (hidden : ∀ ctes columns,ctes.lookup tableName = some columns → Follows (next ctes) .skip)
    (seen : ∀ ctes,ctes.lookup tableName = none → Follows (next ctes) route) :
    Follows (Analysis.ctes >>= next) (.unbound tableName route) := by
  intro w names bound value w' ran
  obtain ⟨ctes,between,answered,rest⟩ := walk_bind ran
  cases answered
  simp only [Itinerary.outcomes]
  cases found : w.ctes.lookup tableName with
  | some columns =>
    rw [if_pos ((bound tableName).mpr (AList.lookup_isSome.mp (by rw [found]; rfl)))]
    obtain ⟨visits,names',member,left⟩ := hidden w.ctes columns found w names bound value w' rest
    exact ⟨visits,names',member,left⟩
  | none =>
    rw [if_neg fun known => AList.lookup_eq_none.mp found ((bound tableName).mp known)]
    exact seen w.ctes found w names bound value w' rest

end Scythe
