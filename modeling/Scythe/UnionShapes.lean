import Scythe.Lib.Reached
import Scythe.Fixtures
import Scythe.TypeWidening

namespace Scythe
open Effect

-- The analyzer together with the nested structs of those that it works for. Their
-- ids stand in the types of the CTEs that it is given, but not in its own table.
structure Enclosed where
  outer : List PendingNestedStruct
  state : Analyzer

def Enclosed.new : Enclosed := ⟨[],.new⟩
def Enclosed.table (s : Enclosed) : List PendingNestedStruct := s.outer ++ s.state.pendingNested
def Enclosed.sub (s : Enclosed) : Enclosed := ⟨s.table,subAnalyzer s.state⟩
def Enclosed.merge (s sub : Enclosed) : Enclosed := ⟨s.outer,s.state.merge sub.state⟩

-- The rows that a nested JSON column holds, wherever the aggregate stands.
def Enclosed.shape (s : Enclosed) (neutralType : String) : Option (List NestedFieldInfo) := shapeOf s.table neutralType

-- The aggregate stands in what this analyzer has analyzed itself.
def Enclosed.Owns (s : Enclosed) (neutralType : String) : Prop :=
  (shapeOf s.state.pendingNested neutralType).isSome

def enclosedOp (operation : AnalyzerOp β) : Run Enclosed ScytheError β := fun s =>
  (runOp operation s.state).map fun outcome => (outcome.1,{s with state:=outcome.2})

def enclosedScoped : AnalyzerScoped β γ → Run Enclosed ScytheError β → Run Enclosed ScytheError γ
  | .place occurrence,body => fun s =>
    match resolvePlaceholderPosition occurrence.token occurrence.span s.state with
    | (none,analyzer) => some (.ok false,{s with state:=analyzer})
    | (some position,analyzer) =>
      chain body (fun registration s => some (.ok true,{s with state:=registerParam position registration s.state}))
        {s with state:=analyzer}
  | .derived,body => fun s =>
    match body s.sub with
    | none => none
    | some (.error failure,_) => some (.error failure,s)
    | some (.ok columns,sub) => some (.ok columns,s.merge sub)
  | .attempt,body => fun s =>
    match body s with
    | none => none
    | some (.error _,s') => some (.ok none,s')
    | some (.ok columns,s') => some (.ok (some columns),s')

def Enclosed.handler : Handler analyzer Enclosed ScytheError := ⟨enclosedOp,enclosedScoped⟩

def Analysis.enclosed (program : Analysis α) : Run Enclosed ScytheError α := Enclosed.handler.run program

def enclosedEnters : ∀ {β γ : Type},AnalyzerScoped β γ → Enclosed → Enclosed → Prop
  | _,_,.place occurrence,s,s' => ∃ position,
    resolvePlaceholderPosition occurrence.token occurrence.span s.state = (some position,s'.state) ∧ s'.outer = s.outer
  | _,_,.derived,s,s' => s' = s.sub
  | _,_,.attempt,s,s' => s' = s

abbrev EnclosedComesBy (place : Analysis δ) (there : Enclosed) (program : Analysis α) (s : Enclosed) : Prop :=
  ComesBy Enclosed.handler enclosedEnters place there program s

theorem enclosed_projects : Projects Enclosed.handler Analyzer.handler Enclosed.state where
  op operation s := by
    show Effect.forget _ ((runOp operation s.state).map _) = _
    simp [Effect.forget,Analyzer.handler,Function.comp_def]
  within operation m n same s := by
    cases operation with
    | place occurrence =>
      simp only [Enclosed.handler,enclosedScoped,Analyzer.handler,runScoped]
      rcases resolvePlaceholderPosition occurrence.token occurrence.span s.state with ⟨_ | position,analyzer⟩
      · rfl
      · exact forget_chain same (fun _ _ => rfl) {s with state:=analyzer}
    | derived =>
      simp only [Enclosed.handler,enclosedScoped,Analyzer.handler,runScoped]
      rw [show subAnalyzer s.state = s.sub.state from rfl,←same s.sub]
      rcases m s.sub with _ | ⟨failure | columns,sub⟩ <;> rfl
    | attempt =>
      simp only [Enclosed.handler,enclosedScoped,Analyzer.handler,runScoped]
      rw [←same s]
      rcases m s with _ | ⟨failure | columns,s'⟩ <;> rfl

theorem enclosed_entered : Entered Enclosed.handler enclosedEnters := by
  intro β γ operation m n s same
  cases operation with
  | place occurrence =>
    simp only [Enclosed.handler,enclosedScoped]
    rcases resolved : resolvePlaceholderPosition occurrence.token occurrence.span s.state with ⟨_ | position,analyzer⟩
    · rfl
    · dsimp only
      unfold chain
      rw [same {s with state:=analyzer} ⟨position,resolved,rfl⟩]
  | derived =>
    simp only [Enclosed.handler,enclosedScoped]
    rw [same s.sub rfl]
  | attempt =>
    simp only [Enclosed.handler,enclosedScoped]
    rw [same s rfl]

-- No id is given twice, over all the analyzers at work.
structure IdsApart (outer : List PendingNestedStruct) (s : Enclosed) : Prop where
  enclosing : s.outer = outer
  apart : (s.table.map (·.id)).Nodup
  below : ∀ nested ∈ s.table,nested.id < s.state.nextNestedId

theorem IdsApart.new : IdsApart [] .new where
  enclosing := rfl
  apart := .nil
  below := nofun

theorem IdsApart.of_table {s s' : Enclosed} (numbered : IdsApart outer s) (same : s'.outer = s.outer)
    (pending : s'.state.pendingNested = s.state.pendingNested)
    (next : s'.state.nextNestedId = s.state.nextNestedId) : IdsApart outer s' where
  enclosing := same.trans numbered.enclosing
  apart := by
    rw [Enclosed.table,same,pending]
    exact numbered.apart
  below := by
    rw [Enclosed.table,same,pending,next]
    exact numbered.below

theorem IdsApart.push {s : Enclosed} (numbered : IdsApart outer s) (fields : List NestedFieldInfo) :
    IdsApart outer {s with state:={s.state with
      nextNestedId:=s.state.nextNestedId + 1
      pendingNested:=s.state.pendingNested ++ [⟨s.state.nextNestedId,fields⟩]}} where
  enclosing := numbered.enclosing
  apart := by
    simp only [Enclosed.table]
    rw [←List.append_assoc,List.map_append]
    refine List.Nodup.append numbered.apart (by simp) ?_
    intro id known new
    obtain ⟨nested,member,rfl⟩ := List.mem_map.mp known
    have less := numbered.below nested member
    simp only [List.map_cons,List.map_nil,List.mem_singleton] at new
    omega
  below := by
    intro nested member
    simp only [Enclosed.table] at member ⊢
    rw [←List.append_assoc] at member
    rcases List.mem_append.mp member with old | new
    · exact Nat.lt_succ_of_lt (numbered.below nested old)
    · rw [List.mem_singleton.mp new]
      exact Nat.lt_succ_self _

theorem IdsApart.sub {s : Enclosed} (numbered : IdsApart outer s) : IdsApart s.table s.sub where
  enclosing := rfl
  apart := by
    simp only [Enclosed.table,Enclosed.sub,subAnalyzer,List.append_nil]
    exact numbered.apart
  below := by
    simp only [Enclosed.table,Enclosed.sub,subAnalyzer,List.append_nil]
    exact numbered.below

theorem Enclosed.table_merge {s sub : Enclosed} (inner : sub.outer = s.table) : (s.merge sub).table = sub.table := by
  simp only [Enclosed.table] at inner ⊢
  simp only [Enclosed.merge,Analyzer.merge,inner,List.append_assoc]

theorem IdsApart.merge {s sub : Enclosed} (numbered : IdsApart outer s) (inner : IdsApart s.table sub) :
    IdsApart outer (s.merge sub) where
  enclosing := numbered.enclosing
  apart := by
    rw [Enclosed.table_merge inner.enclosing]
    exact inner.apart
  below := by
    rw [Enclosed.table_merge inner.enclosing]
    exact inner.below

theorem resolvePlaceholderPosition_nested (placeholder : String) (span : Span) (self : Analyzer) :
    (resolvePlaceholderPosition placeholder span self).2.pendingNested = self.pendingNested ∧
      (resolvePlaceholderPosition placeholder span self).2.nextNestedId = self.nextNestedId := by
  unfold resolvePlaceholderPosition
  split
  · exact ⟨rfl,rfl⟩
  · split
    · dsimp only
      split <;> exact ⟨rfl,rfl⟩
    · exact ⟨rfl,rfl⟩

theorem idsApart_maintained : Enclosed.handler.Maintains IdsApart where
  op operation outer s r s' numbered ran := by
    cases operation with
    | pushPendingNested fields =>
      cases ran
      exact numbered.push fields
    | _ =>
      cases ran
      all_goals exact numbered.of_table rfl rfl rfl
  within operation m bodies outer s r s' numbered ran := by
    cases operation with
    | place occurrence =>
      have kept := resolvePlaceholderPosition_nested occurrence.token occurrence.span s.state
      simp only [Enclosed.handler,enclosedScoped] at ran
      rcases resolved : resolvePlaceholderPosition occurrence.token occurrence.span s.state with ⟨_ | position,self⟩
        <;> rw [resolved] at kept ran
      · cases ran
        exact numbered.of_table rfl kept.1 kept.2
      · have started : IdsApart outer {s with state:=self} := numbered.of_table rfl kept.1 kept.2
        rcases chain_cases ran with ⟨failure,first,-⟩ | ⟨registration,middle,first,last⟩
        · exact bodies _ _ _ _ started first
        · cases last
          exact (bodies _ _ _ _ started first).of_table rfl rfl rfl
    | derived =>
      simp only [Enclosed.handler,enclosedScoped] at ran
      split at ran
      · cases ran
      · cases ran
        exact numbered
      · rename_i columns sub first
        cases ran
        exact numbered.merge (bodies _ _ _ _ numbered.sub first)
    | attempt =>
      simp only [Enclosed.handler,enclosedScoped] at ran
      split at ran
      · cases ran
      · rename_i failure after first
        cases ran
        exact bodies _ _ _ _ numbered first
      · rename_i columns after first
        cases ran
        exact bodies _ _ _ _ numbered first

theorem idsApart_entered {β γ : Type} (operation : AnalyzerScoped β γ) (outer : List PendingNestedStruct)
    (s s' : Enclosed) (numbered : IdsApart outer s) (enters : enclosedEnters operation s s') :
    ∃ outer',IdsApart outer' s' := by
  cases operation with
  | place occurrence =>
    obtain ⟨position,resolved,same⟩ := enters
    have kept := resolvePlaceholderPosition_nested occurrence.token occurrence.span s.state
    rw [resolved] at kept
    exact ⟨outer,numbered.of_table same kept.1 kept.2⟩
  | derived =>
    cases enters
    exact ⟨_,numbered.sub⟩
  | attempt =>
    cases enters
    exact ⟨outer,numbered⟩

-- What the own table says of an id is what the table of all says.
theorem IdsApart.owned {s : Enclosed} (numbered : IdsApart outer s) {id : Nat} {fields : List NestedFieldInfo}
    (found : pendingFields s.state.pendingNested id = some fields) : pendingFields s.table id = some fields := by
  have apart := numbered.apart
  simp only [pendingFields,Option.map_eq_some_iff] at found
  obtain ⟨nested,first,rfl⟩ := found
  have own : nested.id = id := by simpa using List.find?_some first
  have member := List.mem_of_find?_eq_some first
  rw [Enclosed.table,List.map_append] at apart
  have absent : s.outer.find? (fun p => p.id = id) = none := by
    rw [List.find?_eq_none]
    intro other outerMember same
    refine (List.nodup_append.mp apart).2.2 other.id (List.mem_map_of_mem outerMember) nested.id
      (List.mem_map_of_mem member) ?_
    rw [of_decide_eq_true same,own]
  rw [pendingFields,Enclosed.table,List.find?_append,absent,Option.none_or,first]
  rfl

theorem IdsApart.shape_owned {s : Enclosed} (numbered : IdsApart outer s) {t : String} {fields : List NestedFieldInfo}
    (shape : s.shape t = some fields) (owns : s.Owns t) : shapeOf s.state.pendingNested t = some fields := by
  obtain ⟨own,found⟩ := Option.isSome_iff_exists.mp owns
  unfold Enclosed.shape shapeOf at shape
  unfold shapeOf at found ⊢
  cases nested : findNestedPlaceholderId t with
  | none =>
    rw [nested] at found
    cases found
  | some id =>
    rw [nested,Option.bind_some] at shape found
    have same := numbered.owned found
    rw [shape] at same
    rw [Option.bind_some,found,same]

theorem unionError_none {pending : List PendingNestedStruct} {left right : String}
    {leftId rightId : Nat} (leftNested : findNestedPlaceholderId left = some leftId)
    (rightNested : findNestedPlaceholderId right = some rightId) : unionError pending left right = none ↔
      (shapeOf pending left).isSome ∧ shapeOf pending left = shapeOf pending right := by
  simp [unionError,shapeOf,leftNested,rightNested]

theorem IdsApart.accepts_iff {s : Enclosed} (numbered : IdsApart outer s) {left right : String}
    {leftFields rightFields : List NestedFieldInfo} (leftShape : s.shape left = some leftFields)
    (rightShape : s.shape right = some rightFields) :
    (unionError s.state.pendingNested left right = none ↔ leftFields = rightFields) ↔
      (leftFields = rightFields → s.Owns left ∧ s.Owns right) := by
  have nested : ∀ {t fields},s.shape t = some fields → ∃ id,findNestedPlaceholderId t = some id := by
    intro t fields shape
    obtain ⟨id,found,-⟩ := Option.bind_eq_some_iff.mp shape
    exact ⟨id,found⟩
  obtain ⟨leftId,leftNested⟩ := nested leftShape
  obtain ⟨rightId,rightNested⟩ := nested rightShape
  rw [unionError_none leftNested rightNested]
  constructor
  · intro accepts equal
    obtain ⟨left,same⟩ := accepts.mpr equal
    refine ⟨left,?_⟩
    unfold Enclosed.Owns
    rw [←same]
    exact left
  · intro owns
    constructor
    · rintro ⟨left,same⟩
      have right : s.Owns right := by
        unfold Enclosed.Owns
        rw [←same]
        exact left
      rw [numbered.shape_owned leftShape left,numbered.shape_owned rightShape right] at same
      exact Option.some.inj same
    · intro equal
      obtain ⟨left,right⟩ := owns equal
      refine ⟨left,?_⟩
      rw [numbered.shape_owned leftShape left,numbered.shape_owned rightShape right,equal]

theorem analysis_bind_run {program : Analysis α} {next : α → Analysis β} (ran : program.run s = some (.ok value,s')) :
    (program >>= next).run s = (next value).run s' := by
  unfold Analysis.run at ran ⊢
  rw [Program.bind_eq,Handler.run_bind,chain,ran]

-- The columns of a set operation, and the complaints about its columns.
def armColumns : List AnalyzedColumn → List AnalyzedColumn → List AnalyzedColumn
  | [],_ => []
  | left :: lefts,[] => left :: armColumns lefts []
  | left :: lefts,right :: rights =>
    widenedColumn left right (unionType left.neutralType right.neutralType) :: armColumns lefts rights

def armErrors (pending : List PendingNestedStruct) : List AnalyzedColumn → List AnalyzedColumn → List String
  | left :: lefts,right :: rights =>
    (unionError pending left.neutralType right.neutralType).toList ++ armErrors pending lefts rights
  | _,_ => []

theorem widenArms_run (lefts rights : List AnalyzedColumn) (s : Analyzer) : (widenArms lefts rights).run s =
    some (.ok (armColumns lefts rights),
      {s with typeErrors:=s.typeErrors ++ armErrors s.pendingNested lefts rights}) := by
  induction lefts generalizing rights s with
  | nil => simp [widenArms,armColumns,armErrors,Analysis.run]
  | cons left lefts ih =>
    cases rights with
    | nil =>
      simp only [widenArms,armColumns]
      rw [analysis_bind_run (ih [] s)]
      simp [armErrors,Analysis.run]
    | cons right rights =>
      simp only [widenArms,armColumns]
      rw [analysis_bind_run (widenUnionArmType_run left.neutralType right.neutralType s),analysis_bind_run (ih rights _)]
      simp [armErrors,Analysis.run]

theorem armColumns_type {lefts rights : List AnalyzedColumn} {i : Nat} {left right : AnalyzedColumn}
    (leftAt : lefts[i]? = some left) (rightAt : rights[i]? = some right) :
    ((armColumns lefts rights)[i]?).map (·.neutralType) = some (unionType left.neutralType right.neutralType) := by
  induction lefts generalizing rights i with
  | nil => cases leftAt
  | cons first lefts ih =>
    cases rights with
    | nil => cases rightAt
    | cons other rights =>
      cases i with
      | zero =>
        cases leftAt
        cases rightAt
        rfl
      | succ i => exact ih leftAt rightAt

theorem enclosed_run_bind {program : Analysis α} {next : α → Analysis β} {s after : Enclosed}
    (ran : (program >>= next).enclosed s = some (.ok value,after)) :
    ∃ middle between,program.enclosed s = some (.ok middle,between) ∧
      (next middle).enclosed between = some (.ok value,after) := by
  unfold Analysis.enclosed at ran ⊢
  rw [Program.bind_eq,Handler.run_bind] at ran
  exact chain_some ran

theorem enclosed_widenArms {lefts rights columns : List AnalyzedColumn} {s after : Enclosed}
    (ran : (widenArms lefts rights).enclosed s = some (.ok columns,after)) : columns = armColumns lefts rights ∧
      after.state = {s.state with
        typeErrors:=s.state.typeErrors ++ armErrors s.state.pendingNested lefts rights} := by
  have projected := enclosed_projects.run (widenArms lefts rights) s
  rw [Analysis.enclosed] at ran
  rw [ran] at projected
  have plain := widenArms_run lefts rights s.state
  rw [Analysis.run,←projected] at plain
  simp only [Effect.forget,Option.map_some,Option.some.injEq,Prod.mk.injEq,Except.ok.injEq] at plain
  exact plain

section
variable [Text.CaseMap]

-- Two arms of a set operation are complained about although their rows have one
-- shape just when the aggregate of one of them stands in an analyzer further out.
theorem union_shapes_iff [Printer] {catalog : Catalog} {stmt : Statement} {self : Methods} {op : SetOperator}
    {left right : SetExpr} {next : List AnalyzedColumn → Analysis β} {there after : Enclosed}
    {columns : List AnalyzedColumn}
    (reached : EnclosedComesBy (analyzeSetExpr self (.setOperation op left right) >>= next) there
      (analyzeStatement catalog stmt) .new)
    (ran : (analyzeSetExpr self (.setOperation op left right)).enclosed there = some (.ok columns,after)) :
    ∃ leftCols rightCols middle between,(self.analyzeSetExpr left).enclosed there = some (.ok leftCols,middle) ∧
      (self.analyzeSetExpr right).enclosed middle = some (.ok rightCols,between) ∧
      after.state = {between.state with
        typeErrors:=between.state.typeErrors ++ armErrors between.state.pendingNested leftCols rightCols} ∧
      ∀ (i : Nat) (l r : AnalyzedColumn) (leftFields rightFields : List NestedFieldInfo),
        leftCols[i]? = some l → rightCols[i]? = some r →
        between.shape l.neutralType = some leftFields → between.shape r.neutralType = some rightFields →
          (columns[i]?).bind (fun column => after.shape column.neutralType) = some leftFields ∧
          ((unionError between.state.pendingNested l.neutralType r.neutralType = none ↔ leftFields = rightFields) ↔
            (leftFields = rightFields → between.Owns l.neutralType ∧ between.Owns r.neutralType)) := by
  obtain ⟨outer,numbered⟩ := reached.holds idsApart_maintained idsApart_entered [] .new
  obtain ⟨leftCols,middle,leftRan,ran⟩ := enclosed_run_bind ran
  obtain ⟨rightCols,between,rightRan,ran⟩ := enclosed_run_bind ran
  have numbered : IdsApart outer between :=
    idsApart_maintained.run _ _ _ _ _ (idsApart_maintained.run _ _ _ _ _ numbered leftRan) rightRan
  split at ran
  · cases ran
  · obtain ⟨same,state⟩ := enclosed_widenArms ran
    have kept : after.outer = between.outer :=
      (idsApart_maintained.run _ _ _ _ _ numbered ran).enclosing.trans numbered.enclosing.symm
    refine ⟨leftCols,rightCols,middle,between,leftRan,rightRan,state,?_⟩
    intro i l r leftFields rightFields leftAt rightAt leftShape rightShape
    refine ⟨?_,numbered.accepts_iff leftShape rightShape⟩
    have type := armColumns_type leftAt rightAt
    obtain ⟨column,columnAt,widened⟩ := Option.map_eq_some_iff.mp type
    have nested : ∀ {t fields},between.shape t = some fields → ∃ id,findNestedPlaceholderId t = some id := by
      intro t fields shape
      obtain ⟨id,found,-⟩ := Option.bind_eq_some_iff.mp shape
      exact ⟨id,found⟩
    obtain ⟨leftId,leftNested⟩ := nested leftShape
    obtain ⟨rightId,rightNested⟩ := nested rightShape
    have leftType : unionType l.neutralType r.neutralType = l.neutralType := by
      simp [unionType,leftNested,rightNested]
    rw [same,columnAt,Option.bind_some,widened,leftType]
    have table : after.table = between.table := by
      rw [Enclosed.table,Enclosed.table,kept,state]
    rw [Enclosed.shape,table]
    exact leftShape

end

section
local instance armsCase : Text.CaseMap := Text.ascii
local instance armsPrinter : Printer := Fixtures.printer

open Fixtures

-- SELECT json_agg(u) AS rows FROM users u
def usersRows : SetExpr :=
  .select ⟨[.exprWithAlias (call "json_agg" [column "u"]) (ident "rows")],[source (aliased "users" "u")],none,
    .expressions [],none,[]⟩

-- SELECT rows FROM c UNION SELECT rows FROM c
def rowsTwice : SetExpr :=
  .setOperation .union (select [column "rows"] [source (table "c")] none)
    (select [column "rows"] [source (table "c")] none)

def withRows : With := ⟨false,[⟨aliasOf "c",ofBody usersRows⟩]⟩

def usersTwice : Statement := .query (ofBody (.setOperation .union usersRows usersRows))

def usersFields : List NestedFieldInfo := [⟨"id","int32",false⟩,⟨"name","string",true⟩]

-- The functions that the query's own call to analyze its body works with.
def usersMethods : Methods := methods (catalog .postgreSQL) (usersTwice.fuel - 2)

-- The state with some of the aggregates analyzed. Each has all the columns.
def usersState (aggregates : Nat) : Enclosed :=
  ⟨[],{Analyzer.new with
    pendingNested:=(List.range aggregates).map fun id => ⟨id,usersFields⟩
    nextNestedId:=aggregates}⟩

def rowsColumn (nullableBeforeJoin : Bool) (id : Nat) : AnalyzedColumn where
  name := "rows"
  neutralType := s!"json_nested<array<__nested__{id}>>"
  nullable := true
  joinGroup := none
  nullableBeforeJoin := nullableBeforeJoin
  sqlType := s!"json_nested<array<__nested__{id}>>"
  sourceRelation := none
  untypedLiteral := false

-- SELECT json_agg(u) AS rows FROM users u UNION SELECT json_agg(u) AS rows FROM users u
theorem users_twice : ∃ column after,
    (analyzeSetExpr usersMethods (.setOperation .union usersRows usersRows)).enclosed .new = some (.ok [column],after) ∧
      after.shape column.neutralType = some usersFields ∧ after.state.typeErrors = [] := by
  have reached : EnclosedComesBy
      (analyzeSetExpr usersMethods (.setOperation .union usersRows usersRows) >>= fun columns => .pure columns) .new
      (analyzeStatement (catalog .postgreSQL) usersTwice) .new := .here
  have first : (usersMethods.analyzeSetExpr usersRows).enclosed .new =
      some (.ok [rowsColumn true 1],usersState 2) := rfl
  have second : (usersMethods.analyzeSetExpr usersRows).enclosed (usersState 2) =
      some (.ok [rowsColumn true 3],usersState 4) := rfl
  have both : (analyzeSetExpr usersMethods (.setOperation .union usersRows usersRows)).enclosed .new =
      some (.ok [rowsColumn false 1],usersState 4) := rfl
  obtain ⟨leftCols,rightCols,middle,between,leftRan,rightRan,state,arms⟩ := union_shapes_iff reached both
  simp only [first,Option.some.injEq,Prod.mk.injEq,Except.ok.injEq] at leftRan
  obtain ⟨rfl,rfl⟩ := leftRan
  simp only [second,Option.some.injEq,Prod.mk.injEq,Except.ok.injEq] at rightRan
  obtain ⟨rfl,rfl⟩ := rightRan
  obtain ⟨shape,accepted⟩ := arms 0 _ _ usersFields usersFields rfl rfl rfl rfl
  have agree : unionError (usersState 4).state.pendingNested (rowsColumn true 1).neutralType
      (rowsColumn true 3).neutralType = none := (accepted.mpr fun _ => ⟨rfl,rfl⟩).mpr rfl
  refine ⟨_,_,both,shape,?_⟩
  rw [state,armErrors,agree]
  rfl

def derivedTwice : ParsedQuery :=
  parsed ("WITH c AS (SELECT json_agg(u) AS rows FROM users u) " ++
    "SELECT d.rows FROM (SELECT rows FROM c UNION SELECT rows FROM c) d") <| .query
      ⟨some withRows,select [qualified "d" "rows"] [source (.derived (ofBody rowsTwice) (some (aliasOf "d")))] none,[],
        none,[]⟩

def cteTwice : ParsedQuery :=
  parsed "WITH c AS (SELECT json_agg(u) AS rows FROM users u) SELECT rows FROM c UNION SELECT rows FROM c" <| .query
    ⟨some withRows,rowsTwice,[],none,[]⟩

def columnTypes (outcome : Option (Except ScytheError AnalyzedQuery)) : Option (Except ScytheError (List String)) :=
  outcome.map fun answer => answer.map fun result => result.columns.map (·.neutralType)

-- One column of one CTE, twice.
theorem derived_arms_rejected :
    columnTypes (analyze (catalog .postgreSQL) derivedTwice) = some (.error (.typeMismatch shapesDifferError)) ∧
      columnTypes (analyze (catalog .postgreSQL) cteTwice) = some (.ok ["json_nested<array<QueryRowRows>>"]) := by
  exact ⟨rfl,rfl⟩

end
end Scythe
