import Scythe.Fixtures
import Scythe.Origins

-- Which sources of a FROM list its joins make nullable.
namespace Scythe
open Effect Text

-- What joined tables do to the nullability flags of a scope: they may set every
-- flag that is there, and they add their own.
structure FlagEffect where
  marks : Bool
  own : List Bool
  deriving DecidableEq,Repr

namespace FlagEffect

def apply (effect : FlagEffect) (flags : List Bool) : List Bool :=
  (if effect.marks then List.replicate flags.length true else flags) ++ effect.own

def none : FlagEffect := ⟨false,[]⟩

def andThen (first last : FlagEffect) : FlagEffect := ⟨first.marks || last.marks,last.apply first.own⟩

theorem apply_nil (effect : FlagEffect) : effect.apply [] = effect.own := by
  unfold apply
  split <;> rfl

@[simp] theorem apply_none (flags : List Bool) : none.apply flags = flags := List.append_nil flags

theorem apply_andThen (first last : FlagEffect) (flags : List Bool) :
    (first.andThen last).apply flags = last.apply (first.apply flags) := by
  obtain ⟨marks,own⟩ := first
  obtain ⟨later,last⟩ := last
  unfold apply andThen
  cases marks with
  | false =>
    cases later with
    | false => simp [apply]
    | true => simp [apply,←List.append_assoc]
  | true =>
    cases later with
    | false => simp [apply]
    | true => simp [apply,←List.append_assoc]

end FlagEffect

mutual

def factorFlags : TableFactor → Bool → FlagEffect
  | .nestedJoin tables _,nullable => nestedFlags tables nullable
  | .other _,_ => .none
  | .table _ _ _ _,nullable | .derived _ _,nullable | .tableFunction _ _,nullable | .unnest _ _,nullable
  | .function _ _ _,nullable => ⟨false,[nullable]⟩

def nestedFlags : TableWithJoins → Bool → FlagEffect
  | ⟨relation,joins⟩,nullable => (factorFlags relation nullable).andThen (nestedJoinsFlags joins nullable)

def nestedJoinsFlags : List Join → Bool → FlagEffect
  | [],_ => .none
  | join :: joins,nullable => (nestedJoinFlags join nullable).andThen (nestedJoinsFlags joins nullable)

def nestedJoinFlags : Join → Bool → FlagEffect
  | ⟨relation,joinOperator,_⟩,nullable =>
    let effect := nestedJoinEffect nullable joinOperator
    (FlagEffect.mk effect.marksEarlier []).andThen (factorFlags relation effect.nullable)

end

def joinFlags (effect : JoinOperator → JoinEffect) (join : Join) : FlagEffect :=
  (FlagEffect.mk (effect join.joinOperator).marksEarlier []).andThen
    (factorFlags join.relation (effect join.joinOperator).nullable)

def joinsFlags (effect : JoinOperator → JoinEffect) : List Join → FlagEffect
  | [] => .none
  | join :: joins => (joinFlags effect join).andThen (joinsFlags effect joins)

-- A comma-separated item of a FROM list, by itself.
def itemFlags (item : TableWithJoins) : FlagEffect := (factorFlags item.relation false).andThen (joinsFlags joinEffect item.joins)

def itemsFlags : List TableWithJoins → FlagEffect
  | [] => .none
  | item :: items => (itemFlags item).andThen (itemsFlags items)

theorem nestedJoinsFlags_eq (joins : List Join) (nullable : Bool) :
    nestedJoinsFlags joins nullable = joinsFlags (nestedJoinEffect nullable) joins := by
  induction joins with
  | nil => rfl
  | cons join joins ih =>
    rw [nestedJoinsFlags,joinsFlags,ih]
    obtain ⟨relation,joinOperator,condition⟩ := join
    rw [nestedJoinFlags]
    rfl

def Scope.flags (scope : Scope) : List Bool := scope.sources.map (·.nullableFromJoin)

theorem flags_push (scope : Scope) (source : ScopeSource) :
    (scope.push source).flags = scope.flags ++ [source.nullableFromJoin] := by
  unfold Scope.flags Scope.push
  rw [List.map_append]
  rfl

theorem flags_mark (effect : JoinEffect) (scope : Scope) :
    (effect.apply scope).flags = (FlagEffect.mk effect.marksEarlier []).apply scope.flags := by
  unfold JoinEffect.apply FlagEffect.apply
  rw [List.append_nil]
  split
  · have all : scope.markNullable.flags = scope.sources.map fun _ => true := List.map_map
    rw [all,List.map_const']
    simp only [Scope.flags,List.length_map]
  · rfl

section
variable [CaseMap]

-- The scope that a program comes to has the flags of an effect.
def Sets (program : Analysis Scope) (effect : FlagEffect) (scope : Scope) : Prop :=
  program.Returns fun built => built.flags = effect.apply scope.flags

variable {self : Methods} {catalog : Catalog}

omit [CaseMap] in
theorem addJoins_sets (factors : ∀ tf scope nullable,Sets (self.addTableFactorToScope tf scope nullable) (factorFlags tf nullable) scope)
    (effect : JoinOperator → JoinEffect) (joins : List Join) (scope : Scope) :
    Sets (addJoins self effect joins scope) (joinsFlags effect joins) scope := by
  induction joins generalizing scope with
  | nil => exact (FlagEffect.apply_none _).symm
  | cons join joins ih =>
    apply (factors join.relation _ _).bind
    intro added here
    apply (ih added).weaken
    intro built below
    rw [below,here,flags_mark,joinsFlags,joinFlags,FlagEffect.apply_andThen,FlagEffect.apply_andThen]

theorem addTableFactorToScope_sets
    (factors : ∀ tf scope nullable,Sets (self.addTableFactorToScope tf scope nullable) (factorFlags tf nullable) scope)
    (tf : TableFactor) (scope : Scope) (nullable : Bool) :
    Sets (addTableFactorToScope catalog self tf scope nullable) (factorFlags tf nullable) scope := by
  cases tf with
  | table name tableAlias args unread =>
    apply Program.returns_after
    intro columns
    exact flags_push scope _
  | derived subquery tableAlias =>
    apply Program.returns_after
    intro subCols
    exact flags_push scope _
  | nestedJoin tables tableAlias =>
    apply (factors tables.relation scope nullable).bind
    intro first here
    apply (addJoins_sets factors _ tables.joins first).weaken
    intro built below
    obtain ⟨relation,joins⟩ := tables
    rw [below,here,factorFlags,nestedFlags,nestedJoinsFlags_eq,FlagEffect.apply_andThen]
  | tableFunction expr tableAlias => exact flags_push scope _
  | «unnest» arrayExprs tableAlias => exact flags_push scope _
  | function name args tableAlias =>
    apply Program.returns_after
    intro columns
    exact flags_push scope _
  | other unread => exact (FlagEffect.apply_none _).symm

theorem methods_sets [Printer] (catalog : Catalog) (fuel : Nat) (tf : TableFactor) (scope : Scope) (nullable : Bool) :
    Sets ((methods catalog fuel).addTableFactorToScope tf scope nullable) (factorFlags tf nullable) scope := by
  induction fuel generalizing tf scope nullable with
  | zero => exact nofun
  | succ fuel ih => exact addTableFactorToScope_sets ih tf scope nullable

omit [CaseMap] in
theorem addTables_sets (factors : ∀ tf scope nullable,Sets (self.addTableFactorToScope tf scope nullable) (factorFlags tf nullable) scope)
    (items : List TableWithJoins) (scope : Scope) : Sets (addTables self items scope) (itemsFlags items) scope := by
  induction items generalizing scope with
  | nil => exact (FlagEffect.apply_none _).symm
  | cons item items ih =>
    apply (factors item.relation scope false).bind
    intro first here
    apply (addJoins_sets factors joinEffect item.joins first).bind
    intro joined next
    apply (ih joined).weaken
    intro built below
    rw [below,next,here,itemsFlags,itemFlags,FlagEffect.apply_andThen,FlagEffect.apply_andThen]

theorem builtFrom_flags [Printer] {sources : List TableWithJoins} (built : BuiltFrom catalog sources scope) :
    scope.flags = (itemsFlags sources).own := by
  obtain ⟨fuel,before,after,ran⟩ := built
  have sets := (addTables_sets (methods_sets catalog fuel) sources .empty).run ran
  rw [sets]
  exact FlagEffect.apply_nil _

omit [CaseMap] in
theorem itemsFlags_append (before after : List TableWithJoins) (flags : List Bool) :
    (itemsFlags (before ++ after)).apply flags = (itemsFlags after).apply ((itemsFlags before).apply flags) := by
  induction before generalizing flags with
  | nil => rw [List.nil_append,itemsFlags,FlagEffect.apply_none]
  | cons item before ih =>
    rw [List.cons_append,itemsFlags,itemsFlags,FlagEffect.apply_andThen,FlagEffect.apply_andThen,ih]

def sourceCount (items : List TableWithJoins) : Nat := (itemsFlags items).own.length

-- The flags of the sources that come from the item after the given ones.
def Scope.flagsAfter (scope : Scope) (before : List TableWithJoins) (item : TableWithJoins) : List Bool :=
  (scope.flags.drop (sourceCount before)).take (sourceCount [item])

-- The flags of an item's sources are those that its own joins give them, and
-- nothing in another item changes them.
def ItemsIndependent (sources : List TableWithJoins) (scope : Scope) : Prop :=
  ∀ before item after,sources = before ++ item :: after → scope.flagsAfter before item = (itemFlags item).own

variable [Printer]

omit [Printer] [CaseMap] in
theorem itemsFlags_single (item : TableWithJoins) : (itemsFlags [item]).own = (itemFlags item).own :=
  FlagEffect.apply_none _

-- An item by itself has these flags.
theorem item_alone {item : TableWithJoins} (built : BuiltFrom catalog [item] scope) :
    scope.flags = (itemFlags item).own := by
  rw [builtFrom_flags built,itemsFlags_single]

theorem flagsAfter_eq {before after : List TableWithJoins} {item : TableWithJoins}
    (built : BuiltFrom catalog (before ++ item :: after) scope) :
    scope.flagsAfter before item =
      if (itemsFlags after).marks then List.replicate (itemFlags item).own.length true else (itemFlags item).own := by
  have whole : scope.flags = (itemsFlags after).apply ((itemFlags item).apply (itemsFlags before).own) := by
    rw [builtFrom_flags built,←FlagEffect.apply_nil,itemsFlags_append,itemsFlags,FlagEffect.apply_andThen,
      FlagEffect.apply_nil]
  unfold Scope.flagsAfter sourceCount
  rw [whole,itemsFlags_single]
  unfold FlagEffect.apply
  cases (itemFlags item).marks with
  | false =>
    cases (itemsFlags after).marks with
    | false => simp
    | true => simp [←List.replicate_append_replicate]
  | true =>
    cases (itemsFlags after).marks with
    | false => simp
    | true => simp [←List.replicate_append_replicate]

theorem items_independent_iff {sources : List TableWithJoins} (built : BuiltFrom catalog sources scope) :
    ItemsIndependent sources scope ↔
      ∀ before item after,sources = before ++ item :: after → (itemsFlags after).marks = true →
        ∀ flag ∈ (itemFlags item).own,flag = true := by
  unfold ItemsIndependent
  constructor
  · intro independent before item after same marks
    subst same
    have own := independent before item after rfl
    rw [flagsAfter_eq built,if_pos marks] at own
    intro flag member
    rw [←own] at member
    exact List.eq_of_mem_replicate member
  · intro nullable before item after same
    subst same
    rw [flagsAfter_eq built]
    split
    · rename_i marks
      exact (List.eq_replicate_of_mem (nullable before item after rfl marks)).symm
    · rfl

end

section RightJoin
local instance itemsCase : CaseMap := ascii
local instance itemsPrinter : Printer := Fixtures.printer

-- FROM users a, users b JOIN users c ON b.id = c.id, for a kind of join
def commaSources (joinOperator : JoinOperator) : List TableWithJoins := [Fixtures.source (Fixtures.aliased "users" "a"),
  ⟨Fixtures.aliased "users" "b",[⟨Fixtures.aliased "users" "c",joinOperator,
    some (.binaryOp (Fixtures.qualified "b" "id") .eq (Fixtures.qualified "c" "id"))⟩]⟩]

theorem builtFrom_of_run {sources : List TableWithJoins} {catalog : Catalog} (fuel : Nat)
    (run : (((buildScopeFromFrom (methods catalog fuel) sources).run .new).bind fun r => r.1.toOption).isSome = true) :
    ∃ scope,BuiltFrom catalog sources scope := by
  obtain ⟨scope,is⟩ := Option.isSome_iff_exists.mp run
  obtain ⟨result,ended,ok⟩ := Option.bind_eq_some_iff.mp is
  obtain ⟨answer,after⟩ := result
  cases answer with
  | error failure => cases ok
  | ok built => exact ⟨built,fuel,_,after,ended⟩

theorem rightJoin_reaches_out : ∃ scope,BuiltFrom (Fixtures.catalog .postgreSQL) (commaSources .right) scope ∧
    ¬ItemsIndependent (commaSources .right) scope := by
  have run : (((buildScopeFromFrom (methods (Fixtures.catalog .postgreSQL) 2) (commaSources .right)).run .new).bind
      fun r => r.1.toOption).isSome = true := rfl
  obtain ⟨scope,built⟩ := builtFrom_of_run 2 run
  refine ⟨scope,built,?_⟩
  intro independent
  have own := independent [] _ _ rfl
  rw [flagsAfter_eq built] at own
  exact absurd own (by decide)

theorem leftJoin_stays : ∃ scope,BuiltFrom (Fixtures.catalog .postgreSQL) (commaSources .left) scope ∧
    ItemsIndependent (commaSources .left) scope := by
  have run : (((buildScopeFromFrom (methods (Fixtures.catalog .postgreSQL) 2) (commaSources .left)).run .new).bind
      fun r => r.1.toOption).isSome = true := rfl
  obtain ⟨scope,built⟩ := builtFrom_of_run 2 run
  refine ⟨scope,built,(items_independent_iff built).mpr ?_⟩
  intro before item after same marks
  have few := congrArg List.length same
  cases before with
  | nil =>
    cases same
    cases marks
  | cons first before =>
    cases before with
    | nil =>
      cases same
      cases marks
    | cons second before =>
      simp [commaSources] at few

end RightJoin

end Scythe
