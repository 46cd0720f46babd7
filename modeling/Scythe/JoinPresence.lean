import Scythe.Fixtures
import Scythe.Lib.NullFlow
import Scythe.Origins

-- Whether a column that an outer join made nullable tells of the join.
namespace Scythe
open NullFlow Text

-- A row of the joined tables and what the engine makes of it: which tables have
-- a row in it, and how the functions of this engine come by a NULL. Where the
-- engine differs from the analyzer the row says what it has instead: for a name
-- that it takes for another column, and for a column of `*` that USING merges
-- or a REPLACE option rewrites. A grouping set leaves out the expressions that
-- it does not group by.
structure JoinedRow (V : Type) where
  matched : ScopeSource → Bool
  cell : ScopeSource → ScopeColumn → Option V
  misread : Option String × String → Option (Option V)
  rewritten : ScopeSource → ScopeColumn → Option (Option V)
  leftOut : Expr → Bool
  computed : Expr → Option V
  rule : Function → Rule
  rowRule : Rule
  result : Expr → Option V → V
  unmatched_missing : ∀ source column,matched source = false → cell source column = none
  matched_value : ∀ source column,matched source = true → column.baseNullable = false →
    (cell source column).isSome = true

namespace JoinedRow
variable {V : Type} (row : JoinedRow V)

def constructSteps (e : Expr) : Construct → List (Step V)
  | .nested => []
  | .unary => [.operation .first [] (row.result e)]
  | .row => [.operation row.rowRule [] (row.result e)]
  | .call func others => [.operation (row.rule func) (others.map row.computed) (row.result e)]

def groupingSteps (e : Expr) : List (Step V) := if row.leftOut e then [.replacement none] else []

def replaced (value : Option (Option V)) : List (Step V) := value.toList.map .replacement

variable [CaseMap]

-- What happens to a column's value on its way out of an expression, the last
-- step first.
def expressionSteps (e : Expr) : List (Step V) :=
  ((path e).constructs.flatMap fun c => row.groupingSteps c.1 ++ row.constructSteps c.1 c.2) ++
    row.groupingSteps (path e).innermost ++ replaced ((reference (path e).innermost).bind row.misread)

def steps : Origin → List (Step V)
  | .expression e => row.expressionSteps e
  | .star source column => replaced (row.rewritten source column)

def innermost (scope : Scope) : Origin → Option V
  | .expression e =>
    match (reference (path e).innermost).bind fun name => findColumn name.2 name.1 scope with
    | some (source,column) => row.cell source column
    | none => row.computed (path e).innermost
  | .star source column => row.cell source column

def value (scope : Scope) (origin : Origin) : Option V := through (row.steps origin) (row.innermost scope origin)

theorem innermost_reads {scope : Scope} {origin : Origin} (reads : origin.Reads scope source column) :
    row.innermost scope origin = row.cell source column := by
  cases origin with
  | expression e =>
    obtain ⟨name,names,found⟩ := reads
    simp only [innermost,names,Option.bind_some,found]
  | star s c =>
    obtain ⟨rfl,rfl⟩ := reads
    rfl

end JoinedRow

-- A query with more than one SELECT also has rows of the other ones.
inductive HasArms : SetExpr → Prop where
  | setOperation : HasArms (.setOperation op left right)
  | query (arms : HasArms query.body) : HasArms (.query query)

inductive ResultRow (V : Type) (body : SetExpr) where
  | joined (row : JoinedRow V)
  | otherArm (arms : HasArms body) (value : Option V)

namespace ResultRow
variable {V : Type} {body : SetExpr}

def present (source : ScopeSource) : ResultRow V body → Bool
  | .joined row => row.matched source
  | .otherArm _ _ => false

variable [CaseMap]

def value (scope : Scope) (origin : Origin) : ResultRow V body → Option V
  | .joined row => row.value scope origin
  | .otherArm _ value => value

-- With the joined table's row nothing makes a NULL on the way, and without it
-- nothing makes a value.
def Undisturbed (source : ScopeSource) (origin : Origin) : ResultRow V body → Prop
  | .joined row =>
    (row.matched source = true → ¬Enters (row.steps origin)) ∧
      (row.matched source = false → ¬Vanishes (row.steps origin))
  | .otherArm _ value => value = none

def Tells (scope : Scope) (origin : Origin) (source : ScopeSource) (row : ResultRow V body) : Prop :=
  row.value scope origin = none ↔ row.present source = false

theorem tells_iff {scope : Scope} {origin : Origin} (reads : origin.Reads scope source column)
    (value : column.baseNullable = false) (row : ResultRow V body) :
    row.Tells scope origin source ↔ row.Undisturbed source origin := by
  cases row with
  | joined row =>
    have cell : (row.cell source column).isSome = row.matched source := by
      cases present : row.matched source with
      | false =>
        rw [row.unmatched_missing source column present]
        rfl
      | true => exact row.matched_value source column present value
    have flows := through_none_iff (row.steps origin) _ cell
    rw [←row.innermost_reads reads] at flows
    exact flows
  | otherArm arms value =>
    unfold Tells Undisturbed ResultRow.value present
    simp

-- Signs, parentheses and functions that are NULL exactly when their first
-- argument is disturb no row.
theorem undisturbed_faithful {origin : Origin} (source : ScopeSource) {row : JoinedRow V}
    (faithful : ∀ step ∈ row.steps origin,step.Faithful) : (joined row : ResultRow V body).Undisturbed source origin := by
  have same := missingThrough_faithful faithful
  refine ⟨?_,?_⟩
  · intro _ enters
    rw [Enters,same] at enters
    cases enters
  · intro _ vanishes
    rw [Vanishes,same] at vanishes
    cases vanishes

end ResultRow

section
variable [CaseMap] [Printer]

-- The column of an outer-joined table that an output column of a query is read
-- from.
structure ReadThroughJoin (catalog : Catalog) (query : ParsedQuery) (i : Nat) (g : String) (stmt : Query)
    (scope : Scope) (origin : Origin) (source : ScopeSource) (column : ScopeColumn) : Prop where
  statement : query.stmt = .query stmt
  projected : ∃ select,Leads stmt.body select ∧ BuiltFrom catalog select.sources scope ∧
    (origins scope select.projection)[i]? = some origin
  reads : origin.Reads scope source column
  group : source.aliasName = g
  joined : source.nullableFromJoin = true
  value : column.baseNullable = false

-- The tag of every column tells, on every row, whether the joined table has a
-- row in it.
def JoinGroupsTell (catalog : Catalog) (query : ParsedQuery) : Prop :=
  ∀ analyzed,analyze catalog query = some (.ok analyzed) → ∀ (i : Nat) col g,analyzed.columns[i]? = some col →
    col.joinGroup = some g → col.nullableBeforeJoin = false →
      ∀ stmt scope origin source column,ReadThroughJoin catalog query i g stmt scope origin source column →
        ∀ (V : Type) (row : ResultRow V stmt.body),row.Tells scope origin source

theorem readThroughJoin_of_tagged {catalog : Catalog} {query : ParsedQuery}
    (is : analyze catalog query = some (.ok analyzed)) {i : Nat} {col : AnalyzedColumn}
    (at' : analyzed.columns[i]? = some col) (tagged : col.joinGroup = some g)
    (discriminant : col.nullableBeforeJoin = false) :
    ∃ stmt scope origin source column,ReadThroughJoin catalog query i g stmt scope origin source column := by
  obtain ⟨stmt,statement,select,scope,origin,leads,built,originAt,ti,same,handed⟩ := analyze_tagged is at' tagged
  rcases handed with computed | ⟨source,column,reads,rfl⟩
  · rw [same.joinGroup,computed.1] at tagged
    cases tagged
  · rw [same.nullableBeforeJoin] at discriminant
    have group : (if source.nullableFromJoin then some source.aliasName else none) = some g :=
      same.joinGroup.symm.trans tagged
    cases joined : source.nullableFromJoin with
    | false =>
      rw [joined] at group
      cases group
    | true =>
      rw [joined] at group
      cases group
      exact ⟨stmt,scope,origin,source,column,statement,⟨select,leads,built,originAt⟩,reads,rfl,joined,discriminant⟩

end

-- When PostgreSQL's own functions of these names are NULL.
def postgresRules : List (List String × Rule) := [
  (["abs","sign","array_remove","array_replace","array_positions"],.first),
  (["mod"],.any),
  (["array_cat"],.all),
  (["array_append","array_prepend"],.never)]

def postgresRule (name : String) : Rule :=
  ((postgresRules.find? fun rule => name ∈ rule.1).map (·.2)).getD (.table true true)

section
variable [CaseMap] {V : Type}

structure JoinedRow.Postgres (row : JoinedRow V) : Prop where
  rule : ∀ func,row.rule func = postgresRule func.callName
  rowRule : row.rowRule = .never

-- Rows without a grouping set, each name of which is the analyzer's column.
structure JoinedRow.Plain (row : JoinedRow V) : Prop where
  groups : ∀ e,row.leftOut e = false
  reads : ∀ name,row.misread name = none

def Construct.Follows : Construct → Prop
  | .nested | .unary => True
  | .row => False
  | .call func _ => postgresRule func.callName = .first

theorem Construct.Follows.faithful {row : JoinedRow V} (postgres : row.Postgres) {construct : Construct}
    (follows : construct.Follows) (e : Expr) : ∀ step ∈ row.constructSteps e construct,step.Faithful := by
  intro step member
  cases construct with
  | nested => cases member
  | unary =>
    cases List.mem_singleton.mp member
    trivial
  | row => exact absurd follows id
  | call func others =>
    cases List.mem_singleton.mp member
    have first : row.rule func = .first := (postgres.rule func).trans follows
    rw [first]
    trivial

-- Which of the functions that hand their first argument's type on are right to
-- hand on its join as well.
theorem follows_undisturbed {row : JoinedRow V} (postgres : row.Postgres) (plain : row.Plain) {e : Expr}
    (follows : ∀ c ∈ (path e).constructs,c.2.Follows) (source : ScopeSource) {body : SetExpr} :
    (ResultRow.joined row : ResultRow V body).Undisturbed source (.expression e) := by
  have grouping (e : Expr) : row.groupingSteps e = [] := by
    unfold JoinedRow.groupingSteps
    rw [plain.groups e]
    rfl
  apply ResultRow.undisturbed_faithful
  intro step member
  have unread : (reference (path e).innermost).bind row.misread = none := by
    cases reference (path e).innermost with
    | none => rfl
    | some name => exact plain.reads name
  simp only [JoinedRow.steps,JoinedRow.expressionSteps,unread,grouping,List.nil_append,JoinedRow.replaced,Option.toList_none,List.map_nil,List.append_nil,
    List.mem_flatMap] at member
  obtain ⟨c,inside,here⟩ := member
  exact (follows c inside).faithful postgres c.1 step here

end

section AppendedTag
local instance presenceCase : CaseMap := ascii
local instance presencePrinter : Printer := Fixtures.printer

def taggedOrders : Table := ⟨[⟨"id","integer",false,none,true⟩,⟨"tags","text[]",false,none,false⟩],"orders"⟩

def taggedCatalog : Catalog :=
  {Fixtures.catalog .postgreSQL with tables:=(Fixtures.catalog .postgreSQL).tables.insert "orders" taggedOrders}

def appendedElement : Expr := .value ⟨.singleQuotedString "x",.empty⟩

def appendFunction : Function :=
  ⟨Fixtures.named "array_append",.list [.unnamed (.expr (Fixtures.qualified "o" "tags")),
    .unnamed (.expr appendedElement)] false [],none,false,none,[]⟩

def appendedSources : List TableWithJoins := [⟨Fixtures.aliased "users" "u",
  [⟨Fixtures.aliased "orders" "o",.left,some (.binaryOp (Fixtures.qualified "o" "id") .eq (Fixtures.qualified "u" "id"))⟩]⟩]

-- An element appended to a missing array makes an array.
def appendedTag : ParsedQuery :=
  Fixtures.parsed "SELECT array_append(o.tags, 'x') FROM users u LEFT JOIN orders o ON o.id = u.id" <| .query <|
    Fixtures.ofBody <| Fixtures.select [.function appendFunction] appendedSources none

def ordersSource : ScopeSource := ⟨"o","orders",catalogScopeColumns taggedCatalog "orders" taggedOrders,true⟩
def usersSource : ScopeSource := ⟨"u","users",catalogScopeColumns taggedCatalog "users" Fixtures.users,false⟩
def tagsColumn : ScopeColumn := .fromCatalog "tags" "text[]" "array<string>" false

-- A user without orders.
def lonelyUser : JoinedRow String where
  matched source := source.aliasName = "u"
  cell source column := if source.aliasName = "u" then some column.name else none
  misread := fun _ => none
  rewritten := fun _ _ => none
  leftOut := fun _ => false
  computed := fun _ => some "x"
  rule func := postgresRule func.callName
  rowRule := .never
  result := fun _ _ => "x"
  unmatched_missing := by
    intro source column unmatched
    rw [if_neg (of_decide_eq_false unmatched)]
  matched_value := by
    intro source column matched _
    rw [if_pos (of_decide_eq_true matched)]
    rfl

theorem appended_column : ∃ analyzed col,analyze taggedCatalog appendedTag = some (.ok analyzed) ∧
    analyzed.columns[0]? = some col ∧ col.joinGroup = some "o" ∧ col.nullableBeforeJoin = false := by
  have run : ((analyze taggedCatalog appendedTag).bind Except.toOption).map (·.columns) =
      some [⟨"array_append","array<string>",true,some "o",false,"text[]",some "orders",false⟩] := rfl
  obtain ⟨analyzed,is,columns⟩ := Option.map_eq_some_iff.mp run
  obtain ⟨result,ended,ok⟩ := Option.bind_eq_some_iff.mp is
  cases result with
  | error failure => cases ok
  | ok found =>
    cases ok
    have first := congrArg (·[0]?) columns
    exact ⟨_,_,ended,first,rfl,rfl⟩

theorem appended_scope : BuiltFrom taggedCatalog appendedSources ⟨[usersSource,ordersSource]⟩ := by
  have run : ((buildScopeFromFrom (methods taggedCatalog 2) appendedSources).run .new).map (fun r => r.1.toOption) =
      some (some ⟨[usersSource,ordersSource]⟩) := rfl
  obtain ⟨result,ended,ok⟩ := Option.map_eq_some_iff.mp run
  obtain ⟨answer,after⟩ := result
  cases answer with
  | error failure => cases ok
  | ok scope =>
    cases ok
    exact ⟨2,_,after,ended⟩

theorem appended_forwards : forwards (.function appendFunction) =
    some (.call appendFunction [appendedElement],Fixtures.qualified "o" "tags") := by
  have arm : functionArm appendFunction.callName = some .firstOrUnknown := rfl
  simp only [forwards,arm]
  rfl

theorem appended_path : path (.function appendFunction) =
    ⟨[(.function appendFunction,.call appendFunction [appendedElement])],Fixtures.qualified "o" "tags"⟩ := by
  have stops : path (Fixtures.qualified "o" "tags") = ⟨[],Fixtures.qualified "o" "tags"⟩ := path_stops rfl
  rw [path_continues appended_forwards,stops]

theorem appended_through : ReadThroughJoin taggedCatalog appendedTag 0 "o"
    (Fixtures.ofBody (Fixtures.select [.function appendFunction] appendedSources none)) ⟨[usersSource,ordersSource]⟩
    (.expression (.function appendFunction)) ordersSource tagsColumn where
  statement := rfl
  projected := ⟨_,.select,appended_scope,rfl⟩
  reads := by
    refine ⟨(some "o","tags"),?_,?_⟩
    · rw [appended_path]
      rfl
    · rfl
  group := rfl
  joined := rfl
  value := rfl

theorem appended_steps : lonelyUser.steps (.expression (.function appendFunction)) =
    [.operation .never [some "x"] fun _ => "x"] := by
  have never : lonelyUser.rule appendFunction = .never := rfl
  have read : (reference (Fixtures.qualified "o" "tags")).bind lonelyUser.misread = none := by
    cases reference (Fixtures.qualified "o" "tags") <;> rfl
  simp only [JoinedRow.steps,JoinedRow.expressionSteps,appended_path,read,List.flatMap_cons,
    JoinedRow.constructSteps,never]
  rfl

end AppendedTag

end Scythe
