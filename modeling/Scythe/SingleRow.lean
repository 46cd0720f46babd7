import Scythe.Fixtures
import Scythe.Lib.RowPipeline
import Scythe.Placeholders

-- How many rows a query returns that is taken to return exactly one.
namespace Scythe.SingleRow
open RowPipeline

-- The clauses that the analyzer does not look at, as the parser keeps them. The
-- number of a FETCH or a TOP may be left out.
structure RowCount where
  quantity : Option Expr
  percent : Bool
  withTies : Bool

structure Clauses where
  distinct : Bool
  top : Option RowCount
  qualify : Option Expr
  fetch : Option RowCount

-- A database is what its FROM clauses return.
abbrev Database (Row : Type) := List TableWithJoins → List Row

-- How expressions are evaluated under the parameters of the query and the row of
-- an outer query: over one row, or over the rows of a group. A number is none where it
-- is NULL.
structure Evaluation (Row Key Value : Type) where
  dual : Row
  holds : Expr → Row → Bool
  -- Whether a call in the expression is an aggregate over the rows of this query. One
  -- whose columns all belong to an outer query is not, nor is max(a, b) in SQLite.
  aggregates : Expr → Bool
  key : GroupByExpr → Row → Key
  holdsOf : Expr → List Row → Bool
  values : List SelectItem → List Row → List Value
  passes : Expr → List (List Value) → List Value → Bool
  arrange : List Expr → List (List Value) → List (List Value)
  arrange_perm : ∀ orderBy rows,(arrange orderBy rows).Perm rows
  same : List Expr → List Value → List Value → Bool
  count : Expr → Option Nat
  -- VALUES, set operations and the like.
  other : SetExpr → Database Row → List (List Value)

namespace Evaluation
section
variable {Row Key Value : Type} [DecidableEq Key] (evaluation : Evaluation Row Key Value) (database : Database Row)

def fromRows (select : Select) : List Row :=
  let rows := match select.sources with
    | [] => [evaluation.dual]
    | sources => database sources
  match select.selection with
  | none => rows
  | some condition => rows.filter (evaluation.holds condition)

def itemAggregates : SelectItem → Bool
  | .unnamedExpr expr | .exprWithAlias expr _ | .exprWithAliases expr _ => evaluation.aggregates expr
  | .wildcard _ _ | .qualifiedWildcard _ _ _ => false

def aggregated (select : Select) : Bool := select.having.isSome || select.projection.any evaluation.itemAggregates

-- An aggregate without GROUP BY has one group, also of no rows.
def groups (select : Select) (rows : List Row) : List (List Row) :=
  match select.groupBy with
  | .expressions [] => if evaluation.aggregated select then [rows] else rows.map ([·])
  | groupBy =>
    (rows.map (evaluation.key groupBy)).dedup.map fun key => rows.filter fun row => evaluation.key groupBy row = key

def selectRows (select : Select) : List (List Value) :=
  let groups := evaluation.groups select (evaluation.fromRows database select)
  let kept := match select.having with
    | none => groups
    | some condition => groups.filter (evaluation.holdsOf condition)
  kept.map (evaluation.values select.projection)

def quota (rowCount : RowCount) : Option Quota :=
  match rowCount.quantity with
  | none => some ⟨1,rowCount.percent,rowCount.withTies⟩
  | some quantity => (evaluation.count quantity).map fun n => ⟨n,rowCount.percent,rowCount.withTies⟩

def limitOf : LimitClause → Option Expr
  | .limitOffset limit _ _ => limit
  | .offsetCommaLimit _ limit => some limit

def offsetOf : LimitClause → Option Expr
  | .limitOffset _ offset _ => offset
  | .offsetCommaLimit offset _ => some offset

def tail (query : Query) (clauses : Clauses) : Tail (List Value) where
  qualify := match clauses.qualify with
    | none => fun _ _ => true
    | some condition => evaluation.passes condition
  distinct := clauses.distinct
  arrange := evaluation.arrange query.orderBy
  arrange_perm := evaluation.arrange_perm query.orderBy
  same := evaluation.same query.orderBy
  top := clauses.top.bind evaluation.quota
  offset := ((query.limitClause.bind offsetOf).bind evaluation.count).getD 0
  limit := (query.limitClause.bind limitOf).bind evaluation.count
  fetch := clauses.fetch.bind evaluation.quota

variable [DecidableEq Value]

def rows (query : Query) (clauses : Clauses) : List (List Value) :=
  let formed := match query.body with
    | .select select => evaluation.selectRows database select
    | body => evaluation.other body database
  (evaluation.tail query clauses).rows formed

end
end Evaluation

-- A query that the predicate accepts is a SELECT of one item without GROUP BY and HAVING.
theorem accepted_shape [Text.CaseMap] {query : Query} (accepted : isSingleRowAggregateQuery query) :
    ∃ select,query.body = .select select ∧ select.groupBy = .expressions [] ∧ select.having = none := by
  unfold isSingleRowAggregateQuery at accepted
  split at accepted
  · rename_i body
    exact ⟨_,body,rfl,rfl⟩
  · rename_i body
    exact ⟨_,body,rfl,rfl⟩
  · cases accepted

section
variable {Row Key Value : Type} {evaluation : Evaluation Row Key Value}

-- A SELECT without FROM has one row before its WHERE clause.
def Evaluation.HoldsOnce (evaluation : Evaluation Row Key Value) (select : Select) : Prop :=
  select.sources = [] ∧ ∀ condition ∈ select.selection,evaluation.holds condition evaluation.dual

theorem fromRows_once {select : Select} (once : evaluation.HoldsOnce select) (database : Database Row) :
    evaluation.fromRows database select = [evaluation.dual] := by
  obtain ⟨alone,holds⟩ := once
  unfold Evaluation.fromRows
  rw [alone]
  cases found : select.selection with
  | none => rfl
  | some condition => simp [holds condition found]

theorem fromRows_nothing {select : Select} (other : ¬evaluation.HoldsOnce select) :
    ∃ database,evaluation.fromRows database select = [] := by
  refine ⟨fun _ => [],?_⟩
  unfold Evaluation.fromRows
  cases sources : select.sources with
  | cons source sources => cases select.selection <;> rfl
  | nil =>
    cases found : select.selection with
    | none => exact absurd ⟨sources,fun _ none => by rw [found] at none; cases none⟩ other
    | some condition =>
      have fails : evaluation.holds condition evaluation.dual = false := by
        by_contra holds
        refine other ⟨sources,fun each among => ?_⟩
        rw [found] at among
        cases among
        exact Bool.eq_true_of_not_eq_false holds
      simp [fails]

variable [DecidableEq Key] [DecidableEq Value]

theorem rows_aggregated {query : Query} {select : Select} (body : query.body = .select select)
    (ungrouped : select.groupBy = .expressions []) (unfiltered : select.having = none)
    (aggregated : evaluation.aggregated select) (clauses : Clauses) (database : Database Row) :
    evaluation.rows database query clauses = (evaluation.tail query clauses).rows
      [evaluation.values select.projection (evaluation.fromRows database select)] := by
  simp only [Evaluation.rows,body,Evaluation.selectRows,Evaluation.groups,ungrouped,unfiltered,aggregated,if_true,
    List.map_cons,List.map_nil]

theorem rows_plain {query : Query} {select : Select} (body : query.body = .select select)
    (ungrouped : select.groupBy = .expressions []) (unfiltered : select.having = none)
    (plain : evaluation.aggregated select = false) (clauses : Clauses) (database : Database Row) :
    evaluation.rows database query clauses = (evaluation.tail query clauses).rows
      ((evaluation.fromRows database select).map fun row => evaluation.values select.projection [row]) := by
  simp only [Evaluation.rows,body,Evaluation.selectRows,Evaluation.groups,ungrouped,unfiltered,plain,Bool.false_eq_true,
    if_false,List.map_map]
  rfl

-- The one row that the item is evaluated to, where there is one.
def Evaluation.itemRow (evaluation : Evaluation Row Key Value) (database : Database Row) (select : Select) : List Value :=
  evaluation.values select.projection (evaluation.fromRows database select)

-- A query that is accepted returns one row on every database exactly when its
-- aggregate is its own (or it has a single row without any table) and no clause cuts
-- that row away.
theorem single_row_iff [Text.CaseMap] (evaluation : Evaluation Row Key Value) (query : Query) (clauses : Clauses)
    (accepted : isSingleRowAggregateQuery query) : ∃ select,query.body = .select select ∧
    ((∀ database,(evaluation.rows database query clauses).length = 1) ↔
      (evaluation.aggregated select ∨ evaluation.HoldsOnce select) ∧ (evaluation.tail query clauses).Uncut ∧
        ∀ database,(evaluation.tail query clauses).qualify [evaluation.itemRow database select]
          (evaluation.itemRow database select)) := by
  obtain ⟨select,body,ungrouped,unfiltered⟩ := accepted_shape accepted
  refine ⟨select,body,?_⟩
  cases aggregated : evaluation.aggregated select with
  | true =>
    simp only [rows_aggregated body ungrouped unfiltered aggregated,Tail.one_row_iff,Evaluation.itemRow,true_or,true_and]
    exact ⟨fun each => ⟨(each fun _ => []).2,fun database => (each database).1⟩,
      fun both database => ⟨both.2 database,both.1⟩⟩
  | false =>
    simp only [rows_plain body ungrouped unfiltered aggregated,Evaluation.itemRow,Bool.false_eq_true,false_or]
    by_cases once : evaluation.HoldsOnce select
    · simp only [fromRows_once once,List.map_cons,List.map_nil,Tail.one_row_iff,once,true_and]
      exact ⟨fun each => ⟨(each fun _ => []).2,fun database => (each database).1⟩,
        fun both database => ⟨both.2 database,both.1⟩⟩
    · constructor
      · intro each
        obtain ⟨database,nothing⟩ := fromRows_nothing once
        have one := each database
        rw [nothing,List.map_nil,Tail.rows_nil] at one
        cases one
      · exact fun both => absurd both.1 once

end

section Users
local instance singleCase : Text.CaseMap := Text.ascii
local instance singlePrinter : Printer := Fixtures.printer

def plainClauses : Clauses := ⟨false,none,none,none⟩

def digits : Expr → Option Nat
  | .value ⟨.number text,_⟩ => Text.parseNat text.toList
  | _ => none

-- count(*) over rows of which nothing is known.
def counting : Evaluation Unit Unit Nat where
  dual := ()
  holds _ _ := true
  aggregates := isAggregateCall
  key _ _ := ()
  holdsOf _ _ := true
  values _ rows := [rows.length]
  passes _ _ _ := true
  arrange _ rows := rows
  arrange_perm _ _ := .refl _
  same _ _ _ := true
  count := digits
  other _ _ := []

def countAll : Expr := .function ⟨Fixtures.named "count",.list [.unnamed .wildcard] false [],none,false,none,[]⟩

def countUsers (limitClause : Option LimitClause) : Query :=
  ⟨none,Fixtures.select [countAll] [Fixtures.source (Fixtures.table "users")] none,[],limitClause,[]⟩

theorem count_returns_one : isSingleRowAggregateQuery (countUsers none) = true ∧
    ∀ database,(counting.rows database (countUsers none) plainClauses).length = 1 := by
  obtain ⟨select,body,exact'⟩ := single_row_iff counting (countUsers none) plainClauses rfl
  cases body
  exact ⟨rfl,exact'.mpr ⟨.inl rfl,⟨(by intro _ none; cases none),rfl,(by intro none; cases none),
    (by intro _ none; cases none)⟩,fun _ => rfl⟩⟩

def limited : LimitClause := .limitOffset (some (Fixtures.number "0")) none []
def moved : LimitClause := .limitOffset none (some (Fixtures.number "1")) []

def countColumn (limitClause : LimitClause) : ParsedQuery :=
  Fixtures.parsed "SELECT (SELECT count(*) FROM users LIMIT 0) FROM users" <| .query <| Fixtures.ofBody <|
    Fixtures.select [.subquery (countUsers (some limitClause))] [Fixtures.source (Fixtures.table "users")] none

-- The query is accepted and its column has no NULL, while no database gives it a row.
def CountsNothing (limitClause : LimitClause) : Prop :=
  isSingleRowAggregateQuery (countUsers (some limitClause)) = true ∧
    (∀ database,counting.rows database (countUsers (some limitClause)) plainClauses = []) ∧
      ((analyzed (Fixtures.catalog .postgreSQL) (countColumn limitClause)).map
        fun outcome => outcome.result.columns.map fun column => (column.neutralType,column.nullable)) =
          some [("int64",false)]

-- SELECT count(*) FROM users LIMIT 0, and the same with OFFSET 1.
theorem limited_returns_none : CountsNothing limited ∧ CountsNothing moved :=
  ⟨⟨rfl,fun _ => rfl,rfl⟩,⟨rfl,fun _ => rfl,rfl⟩⟩

end Users
end Scythe.SingleRow
