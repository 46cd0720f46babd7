import Scythe.ClusterPolicy
import Scythe.Lib.Register

-- The gate over planned schemas, and what it does not look at.
namespace Scythe.ClusterScope
open Text JsonTree

inductive ParseMode where
  | sql
  | plpgsql

def statementObject (entry : Json) : Option (List (String × Json)) := (entry.get "stmt").bind Json.asObject

def functionAction (entry : Json) : Option (List (String × Json)) :=
  ((entry.get "PLpgSQL_function").bind fun function => function.get "action").bind Json.asObject

def statementList (ast : Json) : Option (List Json) := (ast.get "stmts").bind Json.asArray

-- The shape a response is checked for before anything reads it.
def wellFormed : ParseMode → Json → Bool
  | .sql,ast => (statementList ast).any fun stmts =>
    !stmts.isEmpty && stmts.all fun entry => (statementObject entry).any fun statement => statement.length == 1
  | .plpgsql,ast => ast.asArray.any fun functions =>
    !functions.isEmpty && functions.all fun entry => (functionAction entry).isSome

structure ValidatedAst (mode : ParseMode) where
  ast : Json
  valid : wellFormed mode ast

-- The parser of PostgreSQL, as its helper answers.
structure HelperSet where
  parse : (mode : ParseMode) → List Char → Except String (ValidatedAst mode)

structure GateFinding where
  file : String
  line : Option Nat
  code : String
  message : String

def takeBytes : Nat → List Char → List Char
  | _,[] => []
  | n,c :: cs => if c.utf8Size ≤ n then c :: takeBytes (n - c.utf8Size) cs else []

def dropBytes : Nat → List Char → List Char
  | _,[] => []
  | n,c :: cs => if n = 0 then c :: cs else dropBytes (n - c.utf8Size) cs

-- Offsets are counted in bytes and stand between characters.
def lineOf (sql : List Char) (offset : Int) : Nat := (takeBytes offset.toNat sql).count '\n' + 1

def intField (entry : Json) (key : String) : Option Int := (entry.get key).bind Json.asInt

def statementSlice (sql : List Char) (entry : Json) : List Char :=
  let location := ((intField entry "stmt_location").getD 0).toNat
  let length := ((intField entry "stmt_len").getD 0).toNat
  if length = 0 then dropBytes location sql else takeBytes length (dropBytes location sql)

def nodeOf (entry : Json) : Option (String × Json) := (statementObject entry).bind List.head?

def failClosed (file : String) (line : Option Nat) (message : String) : GateFinding where
  file
  line
  code := "SC-CLUSTER04"
  message

def inspectInnerSql (ast : Json) (file : String) (line : Option Nat) : Nat × List GateFinding :=
  match statementList ast with
  | none => (0,[])
  | some statements => (statements.length,statements.filterMap fun entry => (nodeOf entry).bind fun node =>
    match classify node.1 node.2 with
    | .clusterScope kind =>
      some ⟨file,line,"SC-CLUSTER01","cluster-scoped privilege statement (" ++ kind ++ ") in routine body"⟩
    | _ => none)

def queryText (node : Json) (key : String) : Option String :=
  (((node.get key).bind fun s => s.get "PLpgSQL_expr").bind fun e => e.get "query").bind Json.asString

section
variable (helpers : HelperSet)

def inspectStaticSql (query file : String) (line : Option Nat) : List GateFinding :=
  if trimChars query.toList = [] then [] else
  match helpers.parse .sql query.toList with
  | .ok ast => (inspectInnerSql ast.ast file line).2
  | .error error =>
    [failClosed file line ("embeddable SQL in a routine body could not be parsed (fail closed): " ++ error)]

section
variable [CaseMap]

def inspectDynamic (node : Json) (file : String) (line : Option Nat) : List GateFinding :=
  match queryText node "query" with
  | none => [failClosed file line "PL/pgSQL dynamic statement has no recoverable expression (fail closed)"]
  | some expression =>
    match dynamicSqlAllowed expression.toList with
    | .ok () => []
    | .error reason => [⟨file,line,"SC-CLUSTER03","unrecognized dynamic SQL execution in planned schema input: " ++
        expression ++ " (" ++ reason ++ ")"⟩]

def inspected (key : String) : Bool := key == "PLpgSQL_stmt_execsql" || key == "PLpgSQL_stmt_dynexecute"

def inspectMember (file : String) (line : Option Nat) (key : String) (child : Json) : List GateFinding :=
  if key = "PLpgSQL_stmt_execsql" then
    match queryText child "sqlstmt" with
    | some query => inspectStaticSql helpers query file line
    | none => [failClosed file line "PL/pgSQL statement has no recoverable SQL text (fail closed)"]
  else inspectDynamic child file line

variable (file : String) (line : Option Nat)

mutual
def walkPlpgsql : Json → Nat × List GateFinding
  | .null => (0,[])
  | .bool _ => (0,[])
  | .number _ => (0,[])
  | .string _ => (0,[])
  | .array items => walkItems items
  | .object members => walkMembers members
termination_by structural value => value

def walkItems : List Json → Nat × List GateFinding
  | [] => (0,[])
  | item :: items =>
    let first := walkPlpgsql item
    let rest := walkItems items
    (first.1 + rest.1,first.2 ++ rest.2)
termination_by structural items => items

def walkMembers : List (String × Json) → Nat × List GateFinding
  | [] => (0,[])
  | (key,child) :: members =>
    let first := if inspected key then (1,inspectMember helpers file line key child) else walkPlpgsql child
    let rest := walkMembers members
    (first.1 + rest.1,first.2 ++ rest.2)
termination_by structural members => members
end

def inspectRoutine (spec : RoutineSpec) (originalSql : List Char) : Nat × List GateFinding :=
  match spec.language with
  | .plpgsql =>
    match helpers.parse .plpgsql originalSql with
    | .ok ast => walkPlpgsql helpers file line ast.ast
    | .error error =>
      (0,[failClosed file line ("PL/pgSQL routine body could not be inspected (fail closed): " ++ error)])
  | .sql =>
    match helpers.parse .sql spec.body.toList with
    | .ok ast => inspectInnerSql ast.ast file line
    | .error error => (0,[failClosed file line ("SQL routine body could not be inspected (fail closed): " ++ error)])
  | .other language =>
    (0,[failClosed file line ("routine body language '" ++ language ++ "' cannot be inspected (fail closed)")])

end

section
variable [CaseMap]

def gateEntry (path : String) (sql : List Char) (entry : Json) : Except String (Nat × List GateFinding) :=
  match nodeOf entry with
  | none => .error (path ++ ": parser returned a statement with no node")
  | some (nodeType,value) =>
    let line := (intField entry "stmt_location").map (lineOf sql)
    match classify nodeType value with
    | .local => .ok (1,[])
    | .clusterScope kind =>
      .ok (1,[⟨path,line,"SC-CLUSTER01","cluster-scoped privilege statement (" ++ kind ++ "): " ++ nodeType⟩])
    | .notAllowlisted =>
      .ok (1,[⟨path,line,"SC-CLUSTER02","statement kind outside the database-local allow-list: " ++ nodeType⟩])
    | .routine spec =>
      let body := inspectRoutine helpers path line spec (statementSlice sql entry)
      .ok (1 + body.1,body.2)

-- The statements that were inspected, and the findings.
def gateFile (path : String) (sql : List Char) : Except String (Nat × List GateFinding) :=
  match helpers.parse .sql sql with
  | .error error =>
    .ok (0,[⟨path,none,"SC-CLUSTER04","planned schema input could not be parsed (fail closed): " ++ error⟩])
  | .ok ast =>
    match statementList ast.ast with
    | none => .error (path ++ ": parser returned no statement list")
    | some statements => (statements.mapM (gateEntry helpers path sql)).map fun results =>
      (results.foldr (fun result total => result.1 + total) 0,results.flatMap fun result => result.2)

end

end

-- A statement, with the text that it was parsed from.
structure Statement where
  nodeType : String
  value : Json
  source : List Char

def Statement.kind (s : Statement) : Option String := clusterScopeKind s.nodeType s.value

def Statement.routine (s : Statement) : Option RoutineSpec := routineSpec s.nodeType s.value

inductive Item where
  | statement (s : Statement)
  | dynamic (form : String) (node : Json)

def statementsOf (source : List Char) (ast : Json) : List Statement :=
  ((statementList ast).getD []).filterMap fun entry =>
    (nodeOf entry).map fun node => ⟨node.1,node.2,statementSlice source entry⟩

def nodesOf (items : Option Json) : List (String × Json) :=
  ((items.bind Json.asArray).getD []).filterMap fun node => node.asObject.bind List.head?

def listItems (node : Json) : Option Json := (node.get "List").bind fun list => list.get "items"

def schemaElements (s : Statement) : List (String × Json) :=
  if s.nodeType = "CreateSchemaStmt" then nodesOf (s.value.get "schemaElts") else []

-- `BEGIN ATOMIC` holds one list of statements inside another.
def atomicStatements (s : Statement) : List (String × Json) :=
  if s.nodeType = "CreateFunctionStmt" then
    ((((s.value.get "sql_body").bind listItems).bind Json.asArray).getD []).flatMap fun body => nodesOf (listItems body)
  else []

-- The statements of PL/pgSQL that run a string. A cursor and a query that is
-- returned may also hold their query as it is.
def executesString (form : String) (node : Json) : Bool :=
  form == "PLpgSQL_stmt_dynexecute" || form == "PLpgSQL_stmt_dynfors" ||
    (form == "PLpgSQL_stmt_open" || form == "PLpgSQL_stmt_return_query") && (node.get "dynquery").isSome

-- The statements of PL/pgSQL that hold one of SQL, and the field that it stands in.
def statementForms : List (String × String) :=
  [("PLpgSQL_stmt_execsql","sqlstmt"),("PLpgSQL_stmt_call","expr"),("PLpgSQL_stmt_fors","query"),
    ("PLpgSQL_stmt_open","query"),("PLpgSQL_stmt_return_query","query")]

section
variable (helpers : HelperSet)

def bodyStatements (body : List Char) : List Statement :=
  if trimChars body = [] then [] else
  match helpers.parse .sql body with
  | .ok ast => statementsOf body ast.ast
  | .error _ => []

-- What a member of a PL/pgSQL tree stands for.
inductive Holds (member : String × Json) : Item → Prop where
  | static {key query : String} {t : Statement} (form : (member.1,key) ∈ statementForms)
      (text : queryText member.2 key = some query) (among : t ∈ bodyStatements helpers query.toList) :
      Holds member (.statement t)
  | dynamic (runs : executesString member.1 member.2) : Holds member (.dynamic member.1 member.2)

-- What stands directly in a statement, where the gate looks.
inductive Reached (s : Statement) : Item → Prop where
  | sqlBody {spec : RoutineSpec} {t : Statement} (routine : s.routine = some spec) (language : spec.language = .sql)
      (among : t ∈ bodyStatements helpers spec.body.toList) : Reached s (.statement t)
  | plpgsql {spec : RoutineSpec} {tree : ValidatedAst .plpgsql} {member : String × Json} {item : Item}
      (routine : s.routine = some spec) (language : spec.language = .plpgsql)
      (parsed : helpers.parse .plpgsql s.source = .ok tree) (among : member ∈ stopped inspected tree.ast)
      (holds : Holds helpers member item) : Reached s item

-- What stands directly in a statement, where it does not.
inductive Missed (s : Statement) : Item → Prop where
  | schemaElement {node : String × Json} (among : node ∈ schemaElements s) :
      Missed s (.statement ⟨node.1,node.2,s.source⟩)
  | atomic {node : String × Json} (among : node ∈ atomicStatements s) : Missed s (.statement ⟨node.1,node.2,s.source⟩)
  | plpgsql {spec : RoutineSpec} {tree : ValidatedAst .plpgsql} {member : String × Json} {item : Item}
      (routine : s.routine = some spec) (language : spec.language = .plpgsql)
      (parsed : helpers.parse .plpgsql s.source = .ok tree) (among : member ∈ passed inspected tree.ast)
      (holds : Holds helpers member item) : Missed s item

-- What stands directly in a statement.
inductive Contains (s : Statement) : Item → Prop where
  | sqlBody {spec : RoutineSpec} {t : Statement} (routine : s.routine = some spec) (language : spec.language = .sql)
      (among : t ∈ bodyStatements helpers spec.body.toList) : Contains s (.statement t)
  | schemaElement {node : String × Json} (among : node ∈ schemaElements s) :
      Contains s (.statement ⟨node.1,node.2,s.source⟩)
  | atomic {node : String × Json} (among : node ∈ atomicStatements s) : Contains s (.statement ⟨node.1,node.2,s.source⟩)
  | plpgsql {spec : RoutineSpec} {tree : ValidatedAst .plpgsql} {member : String × Json} {item : Item}
      (routine : s.routine = some spec) (language : spec.language = .plpgsql)
      (parsed : helpers.parse .plpgsql s.source = .ok tree) (among : member ∈ within tree.ast)
      (holds : Holds helpers member item) : Contains s item

-- What stands in a statement at any depth.
inductive Inside : Statement → Item → Prop where
  | direct {s : Statement} {item : Item} (contains : Contains helpers s item) : Inside s item
  | deeper {s t : Statement} {item : Item} (contains : Contains helpers s (.statement t)) (inside : Inside t item) :
      Inside s item

theorem contains_iff (s : Statement) (item : Item) : Contains helpers s item ↔ Reached helpers s item ∨ Missed helpers s item := by
  constructor
  · intro contains
    cases contains with
    | sqlBody routine language among => exact Or.inl (.sqlBody routine language among)
    | schemaElement among => exact Or.inr (.schemaElement among)
    | atomic among => exact Or.inr (.atomic among)
    | plpgsql routine language parsed among holds =>
      rcases (mem_within inspected _ _).mp among with seen | unseen
      · exact Or.inl (.plpgsql routine language parsed seen holds)
      · exact Or.inr (.plpgsql routine language parsed unseen holds)
  · rintro (reached | missed)
    · cases reached with
      | sqlBody routine language among => exact .sqlBody routine language among
      | plpgsql routine language parsed among holds =>
        exact .plpgsql routine language parsed ((mem_within inspected _ _).mpr (Or.inl among)) holds
    · cases missed with
      | schemaElement among => exact .schemaElement among
      | atomic among => exact .atomic among
      | plpgsql routine language parsed among holds =>
        exact .plpgsql routine language parsed ((mem_within inspected _ _).mpr (Or.inr among)) holds

def topStatements (sql : List Char) : List Statement :=
  match helpers.parse .sql sql with
  | .ok ast => statementsOf sql ast.ast
  | .error _ => []

-- All that a file holds.
def Contained (sql : List Char) (item : Item) : Prop :=
  ∃ s ∈ topStatements helpers sql,item = .statement s ∨ Inside helpers s item

def Visited (sql : List Char) (item : Item) : Prop :=
  ∃ s ∈ topStatements helpers sql,item = .statement s ∨ Reached helpers s item

def Unvisited (sql : List Char) (item : Item) : Prop :=
  ∃ s ∈ topStatements helpers sql,Missed helpers s item ∨
    ∃ t,Contains helpers s (.statement t) ∧ Inside helpers t item

theorem contained_iff (sql : List Char) (item : Item) :
    Contained helpers sql item ↔ Visited helpers sql item ∨ Unvisited helpers sql item := by
  constructor
  · rintro ⟨s,top,rfl | inside⟩
    · exact Or.inl ⟨s,top,Or.inl rfl⟩
    · cases inside with
      | direct contains =>
        rcases (contains_iff helpers s item).mp contains with reached | missed
        · exact Or.inl ⟨s,top,Or.inr reached⟩
        · exact Or.inr ⟨s,top,Or.inl missed⟩
      | deeper contains inside => exact Or.inr ⟨s,top,Or.inr ⟨_,contains,inside⟩⟩
  · rintro (⟨s,top,rfl | reached⟩ | ⟨s,top,missed | ⟨t,contains,inside⟩⟩)
    · exact ⟨s,top,Or.inl rfl⟩
    · exact ⟨s,top,Or.inr (.direct ((contains_iff helpers s item).mpr (Or.inl reached)))⟩
    · exact ⟨s,top,Or.inr (.direct ((contains_iff helpers s item).mpr (Or.inr missed)))⟩
    · exact ⟨s,top,Or.inr (.deeper contains inside)⟩

-- No cluster-scoped statement, and no string that runs without having been looked at.
def Harmless (sql : List Char) : Item → Prop
  | .statement s => s.kind = none
  | .dynamic form node => Visited helpers sql (.dynamic form node)

-- What the gate asks of a member that it inspects.
def AcceptedMember [CaseMap] (member : String × Json) : Prop :=
  if member.1 = "PLpgSQL_stmt_execsql" then
    ∃ query,queryText member.2 "sqlstmt" = some query ∧ (trimChars query.toList = [] ∨
      ∃ ast,helpers.parse .sql query.toList = .ok ast ∧ ∀ t ∈ statementsOf query.toList ast.ast,t.kind = none)
  else ∃ expression,queryText member.2 "query" = some expression ∧ dynamicSqlAllowed expression.toList = .ok ()

def AcceptedRoutine [CaseMap] (s : Statement) (spec : RoutineSpec) : Prop :=
  match spec.language with
  | .plpgsql => ∃ tree,helpers.parse .plpgsql s.source = .ok tree ∧
      ∀ member ∈ stopped inspected tree.ast,AcceptedMember helpers member
  | .sql => ∃ ast,helpers.parse .sql spec.body.toList = .ok ast ∧
      ∀ t ∈ statementsOf spec.body.toList ast.ast,t.kind = none
  | .other _ => False

def AcceptedStatement [CaseMap] (s : Statement) : Prop :=
  match classify s.nodeType s.value with
  | .local => True
  | .routine spec => AcceptedRoutine helpers s spec
  | .clusterScope _ => False
  | .notAllowlisted => False

-- Nothing is refused where the gate looks.
def Accepted [CaseMap] (sql : List Char) : Prop :=
  ∃ ast,helpers.parse .sql sql = .ok ast ∧ ∀ s ∈ statementsOf sql ast.ast,AcceptedStatement helpers s

def Silent [CaseMap] (path : String) (sql : List Char) : Prop := ∃ statements,gateFile helpers path sql = .ok (statements,[])

theorem classify_cluster {nodeType kind : String} {value : Json} :
    classify nodeType value = .clusterScope kind ↔ clusterScopeKind nodeType value = some kind := by
  unfold classify
  cases found : clusterScopeKind nodeType value with
  | some other => simp
  | none =>
    constructor
    · intro same
      simp only at same
      split at same
      · cases same
      · split at same
        · cases same
        · cases same
    · intro same
      cases same

theorem inspectInnerSql_silent (source : List Char) (ast : Json) (file : String) (line : Option Nat) :
    (inspectInnerSql ast file line).2 = [] ↔ ∀ t ∈ statementsOf source ast,t.kind = none := by
  unfold inspectInnerSql statementsOf
  cases statementList ast with
  | none => simp
  | some statements =>
    simp only [Option.getD_some,List.filterMap_eq_nil_iff,List.mem_filterMap,forall_exists_index,and_imp]
    constructor
    · intro quiet t entry member node
      obtain ⟨found,is,rfl⟩ := Option.map_eq_some_iff.mp node
      have silent := quiet entry member
      rw [is,Option.bind_some] at silent
      cases kind : clusterScopeKind found.1 found.2 with
      | none => exact kind
      | some kind' =>
        rw [classify_cluster.mpr kind] at silent
        cases silent
    · intro local' entry member
      cases node : nodeOf entry with
      | none => rfl
      | some found =>
        have kind := local' _ entry member (Option.map_eq_some_iff.mpr ⟨found,node,rfl⟩)
        rw [Option.bind_some]
        split
        · rename_i other is
          have some' := classify_cluster.mp is
          exact absurd (some'.symm.trans kind) (Option.some_ne_none _)
        · rfl

section
variable [CaseMap] (file : String) (line : Option Nat)

theorem inspectMember_silent (member : String × Json) :
    inspectMember helpers file line member.1 member.2 = [] ↔ AcceptedMember helpers member := by
  unfold inspectMember AcceptedMember
  split
  · cases queryText member.2 "sqlstmt" with
    | none => simp
    | some query =>
      simp only [inspectStaticSql,Option.some.injEq,exists_eq_left']
      split
      · rename_i blank
        simp [blank]
      · rename_i written
        cases parsed : helpers.parse .sql query.toList with
        | error error => simp [written]
        | ok ast =>
          simp only [written,false_or,Except.ok.injEq,exists_eq_left']
          exact inspectInnerSql_silent query.toList ast.ast file line
  · unfold inspectDynamic
    cases queryText member.2 "query" with
    | none => simp
    | some expression =>
      simp only [Option.some.injEq,exists_eq_left']
      split
      · rename_i allowed
        simp [allowed]
      · rename_i reason refused
        simp [refused]

mutual
theorem walkPlpgsql_findings : ∀ value,(walkPlpgsql helpers file line value).2 =
    (stopped inspected value).flatMap fun member => inspectMember helpers file line member.1 member.2
  | .null => rfl
  | .bool _ => rfl
  | .number _ => rfl
  | .string _ => rfl
  | .array items => walkItems_findings items
  | .object members => walkMembers_findings members
termination_by structural value => value

theorem walkItems_findings : ∀ items,(walkItems helpers file line items).2 =
    (stoppedItems inspected items).flatMap fun member => inspectMember helpers file line member.1 member.2
  | [] => rfl
  | item :: items => by
    have first := walkPlpgsql_findings item
    have rest := walkItems_findings items
    simp only [walkItems,stoppedItems,List.flatMap_append,first,rest]
termination_by structural items => items

theorem walkMembers_findings : ∀ members,(walkMembers helpers file line members).2 =
    (stoppedMembers inspected members).flatMap fun member => inspectMember helpers file line member.1 member.2
  | [] => rfl
  | (key,child) :: members => by
    have first := walkPlpgsql_findings child
    have rest := walkMembers_findings members
    simp only [walkMembers,stoppedMembers,List.flatMap_append,rest]
    split
    · rw [List.flatMap_singleton]
    · rw [first]
termination_by structural members => members
end

theorem inspectRoutine_silent (s : Statement) (spec : RoutineSpec) :
    (inspectRoutine helpers file line spec s.source).2 = [] ↔ AcceptedRoutine helpers s spec := by
  unfold inspectRoutine AcceptedRoutine
  cases spec.language with
  | plpgsql =>
    cases parsed : helpers.parse .plpgsql s.source with
    | error error => simp
    | ok tree =>
      simp only [Except.ok.injEq,exists_eq_left',walkPlpgsql_findings,List.flatMap_eq_nil_iff]
      exact forall₂_congr fun member among => inspectMember_silent helpers file line member
  | sql =>
    cases parsed : helpers.parse .sql spec.body.toList with
    | error error => simp
    | ok ast =>
      simp only [Except.ok.injEq,exists_eq_left']
      exact inspectInnerSql_silent spec.body.toList ast.ast file line
  | other language => simp

end

theorem routine_kind {s : Statement} {spec : RoutineSpec} (routine : s.routine = some spec) : s.kind = none := by
  unfold Statement.routine routineSpec at routine
  unfold Statement.kind
  by_cases block : s.nodeType = "DoStmt"
  · simp [block,clusterScopeKind]
  · rw [if_neg block] at routine
    by_cases function : s.nodeType = "CreateFunctionStmt"
    · simp [function,clusterScopeKind]
    · rw [if_neg function] at routine
      cases routine

theorem classify_routine {s : Statement} {spec : RoutineSpec} (routine : s.routine = some spec) :
    classify s.nodeType s.value = .routine spec := by
  have local' := routine_kind routine
  unfold Statement.kind at local'
  unfold Statement.routine at routine
  simp [classify,local',routine]

-- Of the forms that hold a statement the gate inspects one.
theorem inspected_statement {form key : String} (seen : inspected form) (among : (form,key) ∈ statementForms) :
    form = "PLpgSQL_stmt_execsql" ∧ key = "sqlstmt" := by
  simp only [statementForms,List.mem_cons,Prod.mk.injEq,List.not_mem_nil,or_false] at among
  rcases among with is | ⟨rfl,_⟩ | ⟨rfl,_⟩ | ⟨rfl,_⟩ | ⟨rfl,_⟩
  · exact is
  · cases seen
  · cases seen
  · cases seen
  · cases seen

section
variable [CaseMap]

theorem accepted_kind {s : Statement} (accepted : AcceptedStatement helpers s) : s.kind = none := by
  cases kind : s.kind with
  | none => rfl
  | some shared =>
    unfold AcceptedStatement at accepted
    rw [classify_cluster.mpr kind] at accepted
    cases accepted

-- Where the gate is content with all that it sees, what it sees is harmless.
theorem accepted_reached {sql : List Char} {s : Statement} {item : Item} (top : s ∈ topStatements helpers sql)
    (accepted : AcceptedStatement helpers s) (reached : Reached helpers s item) : Harmless helpers sql item := by
  have visited : ∀ form node,item = .dynamic form node → Harmless helpers sql item := by
    rintro form node rfl
    exact ⟨s,top,Or.inr reached⟩
  have bodies : ∀ {body : List Char} {t : Statement},t ∈ bodyStatements helpers body → ∀ ast,
      helpers.parse .sql body = .ok ast → t ∈ statementsOf body ast.ast := by
    intro body t among ast parsed
    unfold bodyStatements at among
    split at among
    · cases among
    · rw [parsed] at among
      exact among
  cases reached with
  | sqlBody routine language among =>
    unfold AcceptedStatement at accepted
    rw [classify_routine routine] at accepted
    simp only [AcceptedRoutine,language] at accepted
    obtain ⟨ast,parsed,quiet⟩ := accepted
    exact quiet _ (bodies among ast parsed)
  | plpgsql routine language parsed among holds =>
    cases holds with
    | dynamic runs => exact visited _ _ rfl
    | static form text inBody =>
      obtain ⟨is,rfl⟩ := inspected_statement (stops_stopped inspected _ _ among) form
      unfold AcceptedStatement at accepted
      rw [classify_routine routine] at accepted
      simp only [AcceptedRoutine,language] at accepted
      obtain ⟨tree,same,members⟩ := accepted
      rw [parsed] at same
      cases same
      have member := members _ among
      rw [AcceptedMember,if_pos is] at member
      obtain ⟨query,known,rest⟩ := member
      rw [text] at known
      cases known
      rcases rest with blank | ⟨ast,read,quiet⟩
      · rw [bodyStatements,if_pos blank] at inBody
        cases inBody
      · exact quiet _ (bodies inBody ast read)

omit [CaseMap] in
theorem validated_nodes (ast : ValidatedAst .sql) :
    ∃ statements,statementList ast.ast = some statements ∧ ∀ entry ∈ statements,(nodeOf entry).isSome := by
  obtain ⟨tree,valid⟩ := ast
  simp only [wellFormed] at valid
  cases list : statementList tree with
  | none =>
    rw [list] at valid
    cases valid
  | some statements =>
    refine ⟨statements,rfl,?_⟩
    intro entry member
    rw [list,Option.any_some,Bool.and_eq_true,List.all_eq_true] at valid
    have single := valid.2 entry member
    unfold nodeOf
    cases object : statementObject entry with
    | none =>
      rw [object] at single
      cases single
    | some members =>
      rw [object] at single
      cases members with
      | nil => cases single
      | cons first rest => rfl

theorem gateEntry_silent (path : String) (sql : List Char) {entry : Json} {node : String × Json} (is : nodeOf entry = some node) :
    ∃ result,gateEntry helpers path sql entry = .ok result ∧
      (result.2 = [] ↔ AcceptedStatement helpers ⟨node.1,node.2,statementSlice sql entry⟩) := by
  unfold gateEntry AcceptedStatement
  rw [is]
  cases verdict : classify node.1 node.2 with
  | «local» =>
    simp only [verdict]
    exact ⟨_,rfl,by simp⟩
  | clusterScope kind =>
    simp only [verdict]
    exact ⟨_,rfl,by simp⟩
  | notAllowlisted =>
    simp only [verdict]
    exact ⟨_,rfl,by simp⟩
  | routine spec =>
    simp only [verdict]
    refine ⟨_,rfl,?_⟩
    exact inspectRoutine_silent helpers path _ ⟨node.1,node.2,statementSlice sql entry⟩ spec

theorem gateFile_findings (path : String) (sql : List Char) {ast : ValidatedAst .sql} (parsed : helpers.parse .sql sql = .ok ast) :
    ∃ inspected findings,gateFile helpers path sql = .ok (inspected,findings) ∧
      (findings = [] ↔ ∀ s ∈ statementsOf sql ast.ast,AcceptedStatement helpers s) := by
  obtain ⟨statements,list,nodes⟩ := validated_nodes ast
  let result : Json → Nat × List GateFinding := fun entry => ((gateEntry helpers path sql entry).toOption).getD (0,[])
  have each : ∀ {entry node},nodeOf entry = some node → gateEntry helpers path sql entry = .ok (result entry) ∧
      ((result entry).2 = [] ↔ AcceptedStatement helpers ⟨node.1,node.2,statementSlice sql entry⟩) := by
    intro entry node is
    obtain ⟨found,gated,silent⟩ := gateEntry_silent helpers path sql is
    have same : result entry = found := by simp [result,gated,Except.toOption]
    rw [same]
    exact ⟨gated,silent⟩
  have gated : statements.mapM (gateEntry helpers path sql) = .ok (statements.map result) := by
    apply Register.mapM_total
    intro entry member
    obtain ⟨node,is⟩ := Option.isSome_iff_exists.mp (nodes entry member)
    exact (each is).1
  refine ⟨(statements.map result).foldr (fun result total => result.1 + total) 0,
    (statements.map result).flatMap fun result => result.2,?_,?_⟩
  · unfold gateFile
    rw [parsed]
    simp only [list,gated]
    rfl
  · rw [List.flatMap_eq_nil_iff,List.forall_mem_map]
    unfold statementsOf
    rw [list]
    constructor
    · intro quiet s member
      obtain ⟨entry,among,made⟩ := List.mem_filterMap.mp member
      obtain ⟨node,is,rfl⟩ := Option.map_eq_some_iff.mp made
      exact (each is).2.mp (quiet entry among)
    · intro accepted entry among
      obtain ⟨node,is⟩ := Option.isSome_iff_exists.mp (nodes entry among)
      apply (each is).2.mpr
      exact accepted _ (List.mem_filterMap.mpr ⟨entry,among,by rw [is]; rfl⟩)

theorem silent_iff (path : String) (sql : List Char) : Silent helpers path sql ↔ Accepted helpers sql := by
  unfold Silent Accepted
  cases parsed : helpers.parse .sql sql with
  | error error => simp [gateFile,parsed]
  | ok ast =>
    obtain ⟨inspected,findings,ran,quiet⟩ := gateFile_findings helpers path sql parsed
    simp only [ran,Except.ok.injEq,Prod.mk.injEq,exists_and_right,exists_eq',true_and,exists_eq_left']
    exact quiet

-- Everything that a file holds is harmless.
def Safe (sql : List Char) : Prop := ∀ item,Contained helpers sql item → Harmless helpers sql item

theorem accepted_visited {sql : List Char} (accepted : Accepted helpers sql) {item : Item} (visited : Visited helpers sql item) :
    Harmless helpers sql item := by
  obtain ⟨ast,parsed,each⟩ := accepted
  obtain ⟨s,top,whole⟩ := visited
  have among : s ∈ statementsOf sql ast.ast := by
    unfold topStatements at top
    rw [parsed] at top
    exact top
  rcases whole with rfl | reached
  · exact accepted_kind helpers (each s among)
  · exact accepted_reached helpers top (each s among) reached

theorem gate_fail_closed_iff (path : String) (sql : List Char) :
    (Silent helpers path sql → Safe helpers sql) ↔
      (Accepted helpers sql → ∀ item,Unvisited helpers sql item → Harmless helpers sql item) := by
  rw [silent_iff]
  apply forall_congr'
  intro accepted
  constructor
  · intro safe item unvisited
    exact safe item ((contained_iff helpers sql item).mpr (Or.inr unvisited))
  · intro local' item contained
    rcases (contained_iff helpers sql item).mp contained with visited | unvisited
    · exact accepted_visited helpers accepted visited
    · exact local' item unvisited

end

end

-- `CREATE SCHEMA` with a grant on a database among its elements.
def schemaGrant : Json :=
  .object [("is_grant",.bool true),("targtype",.string "ACL_TARGET_OBJECT"),("objtype",.string "OBJECT_DATABASE"),
    ("objects",.array [.object [("String",.object [("sval",.string "d")])]]),
    ("privileges",.array [.object [("AccessPriv",.object [("priv_name",.string "connect")])]]),
    ("grantees",.array [.object [("RoleSpec",.object [("roletype",.string "ROLESPEC_CSTRING"),
      ("rolename",.string "joe")])]]),("behavior",.string "DROP_RESTRICT")]

def grantingSchema : Json :=
  .object [("schemaname",.string "s"),("schemaElts",.array [.object [("GrantStmt",schemaGrant)]])]

def grantingSchemaAst : ValidatedAst .sql where
  ast := .object [("version",.number 180006),("stmts",.array [.object [("stmt",.object [("CreateSchemaStmt",grantingSchema)]),
    ("stmt_len",.number 50)]])]
  valid := rfl

def grantingSchemaText : List Char := "CREATE SCHEMA s GRANT CONNECT ON DATABASE d TO joe;".toList

def grantingSchemaHelpers : HelperSet where
  parse
    | .sql,text => if text = grantingSchemaText then .ok grantingSchemaAst else .error "syntax error"
    | .plpgsql,_ => .error "no function"

def grantingStatement : Statement :=
  ⟨"CreateSchemaStmt",grantingSchema,"CREATE SCHEMA s GRANT CONNECT ON DATABASE d TO joe".toList⟩

section
local instance gateCaseMap : CaseMap := ascii

theorem schemaGrant_unseen :
    ¬(Silent grantingSchemaHelpers "schema.sql" grantingSchemaText → Safe grantingSchemaHelpers grantingSchemaText) := by
  intro closed
  have silent : Silent grantingSchemaHelpers "schema.sql" grantingSchemaText := ⟨1,rfl⟩
  have top : topStatements grantingSchemaHelpers grantingSchemaText = [grantingStatement] := rfl
  have element : ("GrantStmt",schemaGrant) ∈ schemaElements grantingStatement := List.mem_singleton.mpr rfl
  have contains := @Contains.schemaElement grantingSchemaHelpers grantingStatement _ element
  have contained := closed silent _ ⟨grantingStatement,top ▸ List.mem_singleton.mpr rfl,Or.inr (.direct contains)⟩
  cases contained

end

end Scythe.ClusterScope
