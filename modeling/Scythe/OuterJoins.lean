import Scythe.FromItems
import Scythe.Lib.JoinTrees

-- Which sources the joins of a FROM clause can extend by nulls, and which of them the
-- scope marks.
namespace Scythe.OuterJoins
open Joins Text

abbrev FromTree := JoinTree JoinOperator TableFactor

-- The rows that OUTER APPLY finds for a row are those of a condition on the two, and it
-- keeps a row for which there are none. A row is what a kind without a condition gives each pair.
def joinKind : JoinOperator → JoinKind
  | .left | .leftOuter | .outerApply => ⟨true,true,false,nofun⟩
  | .right | .rightOuter => ⟨true,false,true,nofun⟩
  | .fullOuter => ⟨true,true,true,nofun⟩
  | .crossJoin => ⟨false,false,false,fun _ => ⟨rfl,rfl⟩⟩
  | .join | .inner | .crossApply | .leftSemi | .leftAnti | .other => ⟨true,false,false,nofun⟩

mutual

def factorTree : TableFactor → FromTree
  | .nestedJoin tables _ => tablesTree tables
  | .other unread => .blank (.other unread)
  | .table name tableAlias args unread => .source (.table name tableAlias args unread)
  | .derived subquery tableAlias => .source (.derived subquery tableAlias)
  | .tableFunction expr tableAlias => .source (.tableFunction expr tableAlias)
  | .unnest arrayExprs tableAlias => .source (.unnest arrayExprs tableAlias)
  | .function name args tableAlias => .source (.function name args tableAlias)

def tablesTree : TableWithJoins → FromTree
  | ⟨relation,joins⟩ => joinsTree joins (factorTree relation)

def joinsTree : List Join → FromTree → FromTree
  | [],tree => tree
  | join :: joins,tree => joinsTree joins (joinTree join tree)

def joinTree : Join → FromTree → FromTree
  | ⟨relation,joinOperator,_⟩,tree => .join tree joinOperator (factorTree relation)

end

-- A comma joins as CROSS JOIN does.
def fromTree : List TableWithJoins → FromTree
  | [] => .unit
  | item :: items => .join (tablesTree item) .crossJoin (fromTree items)

def operators : FromTree → List JoinOperator
  | .unit | .blank _ | .source _ => []
  | .join left joinOperator right => operators left ++ joinOperator :: operators right

-- Joins whose rows have a value or a null for every source of both operands.
def Combining (sources : List TableWithJoins) : Prop :=
  ∀ joinOperator ∈ operators (fromTree sources),joinOperator ≠ .leftSemi ∧ joinOperator ≠ .leftAnti ∧ joinOperator ≠ .other

-- A source that a row of the FROM clause can have no value for is marked.
def NullsMarked (sources : List TableWithJoins) (scope : Scope) : Prop :=
  ∀ place,Extended joinKind (fromTree sources) place → scope.flags[place]? = some true

-- A source by the joins that have it in their right operand, the outermost first, and
-- whether a RIGHT or FULL join comes behind it.
structure Place where
  within : List JoinOperator
  followed : Bool

def Place.before (marks : Bool) (place : Place) : Place := { place with followed := place.followed || marks }

def followedBy (tree : FromTree) : Bool := (operators tree).any fun joinOperator => (joinKind joinOperator).keepsRight

def places : FromTree → List JoinOperator → List Place
  | .unit,_ | .blank _,_ => []
  | .source _,within => [⟨within,false⟩]
  | .join left joinOperator right,within =>
    (places left within).map (Place.before ((joinKind joinOperator).keepsRight || followedBy right)) ++
      places right (within ++ [joinOperator])

-- A LEFT or FULL join marks its right operand, but for that of a RIGHT join in it.
def Marked (within : List JoinOperator) : Prop := ∃ before joinOperator after,within = before ++ joinOperator :: after ∧
  joinOperator ∈ [.left,.leftOuter,.fullOuter] ∧ ∀ deeper ∈ after,deeper ≠ .right ∧ deeper ≠ .rightOuter

-- Of the sources with no RIGHT or FULL join behind them, one in the right operand of a
-- LEFT, FULL or OUTER APPLY join is where a LEFT or FULL join marks it.
def NullsReached (sources : List TableWithJoins) : Prop := ∀ place ∈ places (fromTree sources) [],
  (∃ joinOperator ∈ place.within,(joinKind joinOperator).keepsLeft = true) → place.followed = true ∨ Marked place.within

-- The flags by the tree.
def treeFlags : FromTree → Bool → FlagEffect
  | .unit,_ | .blank _,_ => .none
  | .source _,nullable => ⟨false,[nullable]⟩
  | .join left joinOperator right,nullable =>
    let effect := nestedJoinEffect nullable joinOperator
    (treeFlags left nullable).andThen ((FlagEffect.mk effect.marksEarlier []).andThen (treeFlags right effect.nullable))

theorem andThen_none (effect : FlagEffect) : effect.andThen .none = effect := by
  unfold FlagEffect.andThen
  rw [FlagEffect.apply_none]
  simp [FlagEffect.none]

theorem none_andThen (effect : FlagEffect) : FlagEffect.none.andThen effect = effect := by
  unfold FlagEffect.andThen FlagEffect.none
  rw [FlagEffect.apply_nil,Bool.false_or]

theorem andThen_assoc (first second third : FlagEffect) :
    (first.andThen second).andThen third = first.andThen (second.andThen third) := by
  unfold FlagEffect.andThen
  rw [Bool.or_assoc]
  exact congrArg _ (FlagEffect.apply_andThen second third first.own).symm

mutual

theorem factorFlags_tree : ∀ (tf : TableFactor) (nullable : Bool),factorFlags tf nullable = treeFlags (factorTree tf) nullable
  | .nestedJoin tables _,nullable => by
    rw [factorFlags,factorTree]
    exact nestedFlags_tree tables nullable
  | .other _,_ => by rw [factorFlags,factorTree,treeFlags]
  | .table _ _ _ _,_ => by rw [factorFlags,factorTree,treeFlags]
  | .derived _ _,_ => by rw [factorFlags,factorTree,treeFlags]
  | .tableFunction _ _,_ => by rw [factorFlags,factorTree,treeFlags]
  | .unnest _ _,_ => by rw [factorFlags,factorTree,treeFlags]
  | .function _ _ _,_ => by rw [factorFlags,factorTree,treeFlags]

theorem nestedFlags_tree : ∀ (tables : TableWithJoins) (nullable : Bool),
    nestedFlags tables nullable = treeFlags (tablesTree tables) nullable
  | ⟨relation,joins⟩,nullable => by
    rw [nestedFlags,tablesTree,nestedJoinsFlags_tree joins (factorTree relation) nullable,factorFlags_tree relation nullable]

theorem nestedJoinsFlags_tree : ∀ (joins : List Join) (tree : FromTree) (nullable : Bool),
    treeFlags (joinsTree joins tree) nullable = (treeFlags tree nullable).andThen (nestedJoinsFlags joins nullable)
  | [],tree,nullable => by
    rw [joinsTree,nestedJoinsFlags,andThen_none]
  | join :: joins,tree,nullable => by
    rw [joinsTree,nestedJoinsFlags,nestedJoinsFlags_tree joins (joinTree join tree) nullable,
      nestedJoinFlags_tree join tree nullable,andThen_assoc]

theorem nestedJoinFlags_tree : ∀ (join : Join) (tree : FromTree) (nullable : Bool),
    treeFlags (joinTree join tree) nullable = (treeFlags tree nullable).andThen (nestedJoinFlags join nullable)
  | ⟨relation,joinOperator,condition⟩,tree,nullable => by
    rw [joinTree,nestedJoinFlags,treeFlags,factorFlags_tree relation]

end

theorem joinsTree_operators (joins : List Join) (tree : FromTree) : (∀ joinOperator ∈ operators tree,joinOperator ∈
    operators (joinsTree joins tree)) ∧ ∀ join ∈ joins,join.joinOperator ∈ operators (joinsTree joins tree) := by
  induction joins generalizing tree with
  | nil => exact ⟨fun _ member => member,fun _ member => absurd member List.not_mem_nil⟩
  | cons join joins ih =>
    obtain ⟨kept,later⟩ := ih (joinTree join tree)
    rw [joinsTree]
    obtain ⟨relation,joinOperator,condition⟩ := join
    refine ⟨fun known member => kept known ?_,List.forall_mem_cons.mpr ⟨kept joinOperator ?_,later⟩⟩
    · rw [joinTree,operators]
      exact List.mem_append_left _ member
    · rw [joinTree,operators]
      exact List.mem_append_right _ List.mem_cons_self

-- Outside of parentheses the joins that combine rows do what they do inside.
theorem joinsFlags_combining {joins : List Join} (combining : ∀ join ∈ joins,join.joinOperator ≠ .leftSemi ∧
    join.joinOperator ≠ .leftAnti ∧ join.joinOperator ≠ .other) : joinsFlags joinEffect joins = nestedJoinsFlags joins false := by
  rw [nestedJoinsFlags_eq]
  induction joins with
  | nil => rfl
  | cons join joins ih =>
    have same : joinEffect join.joinOperator = nestedJoinEffect false join.joinOperator := by
      obtain ⟨notSemi,notAnti,_⟩ := combining join List.mem_cons_self
      cases is : join.joinOperator with
      | leftSemi => exact absurd is notSemi
      | leftAnti => exact absurd is notAnti
      | _ => rfl
    rw [joinsFlags,joinsFlags,joinFlags,joinFlags,same,ih fun other member => combining other (List.mem_cons_of_mem _ member)]

theorem itemFlags_tree {item : TableWithJoins} (combining : ∀ joinOperator ∈ operators (tablesTree item),
    joinOperator ≠ .leftSemi ∧ joinOperator ≠ .leftAnti ∧ joinOperator ≠ .other) :
    itemFlags item = treeFlags (tablesTree item) false := by
  obtain ⟨relation,joins⟩ := item
  rw [tablesTree] at combining ⊢
  have each := (joinsTree_operators joins (factorTree relation)).2
  rw [nestedJoinsFlags_tree,← factorFlags_tree,itemFlags,joinsFlags_combining fun join member => combining _ (each join member)]

theorem itemsFlags_tree {items : List TableWithJoins} (combining : Combining items) :
    itemsFlags items = treeFlags (fromTree items) false := by
  induction items with
  | nil => rfl
  | cons item items ih =>
    unfold Combining at combining
    rw [fromTree,operators,List.forall_mem_append,List.forall_mem_cons] at combining
    obtain ⟨first,_,rest⟩ := combining
    rw [itemsFlags,itemFlags_tree first,ih rest,fromTree,treeFlags]
    exact congrArg _ (none_andThen _).symm

theorem places_width (tree : FromTree) (within : List JoinOperator) : (places tree within).length = tree.width := by
  induction tree generalizing within with
  | unit => rfl
  | blank name => rfl
  | source name => rfl
  | join left joinOperator right ihLeft ihRight =>
    rw [places,List.length_append,List.length_map,ihLeft,ihRight]
    rfl

-- The flag that the joins around a source leave to it.
def kept (within : List JoinOperator) : Bool :=
  within.foldl (fun nullable joinOperator => (nestedJoinEffect nullable joinOperator).nullable) false

theorem kept_snoc (within : List JoinOperator) (joinOperator : JoinOperator) :
    kept (within ++ [joinOperator]) = (nestedJoinEffect (kept within) joinOperator).nullable := by
  unfold kept
  rw [List.foldl_append]
  rfl

theorem marked_snoc {within : List JoinOperator} {joinOperator : JoinOperator} : Marked (within ++ [joinOperator]) ↔
    joinOperator ∈ [.left,.leftOuter,.fullOuter] ∨ (joinOperator ≠ .right ∧ joinOperator ≠ .rightOuter) ∧ Marked within := by
  constructor
  · rintro ⟨before,known,after,split,marking,quiet⟩
    rcases List.eq_nil_or_concat after with rfl | ⟨after,last,rfl⟩
    · obtain ⟨_,same⟩ := List.append_inj' split rfl
      exact .inl ((List.cons.inj same).1 ▸ marking)
    · rw [List.concat_eq_append] at split quiet
      have whole : within ++ [joinOperator] = (before ++ known :: after) ++ [last] := by
        rw [split]
        simp
      obtain ⟨rfl,same⟩ := List.append_inj' whole rfl
      obtain rfl := (List.cons.inj same).1
      refine .inr ⟨quiet joinOperator (by simp),before,known,after,rfl,marking,?_⟩
      exact fun deeper member => quiet deeper (List.mem_append_left _ member)
  · rintro (marking | ⟨quiet,before,known,after,rfl,marking,none⟩)
    · exact ⟨within,joinOperator,[],rfl,marking,fun _ member => absurd member List.not_mem_nil⟩
    · refine ⟨before,known,after ++ [joinOperator],by simp,marking,?_⟩
      rw [List.forall_mem_append]
      exact ⟨none,List.forall_mem_singleton.mpr quiet⟩

theorem kept_iff (within : List JoinOperator) : kept within = true ↔ Marked within := by
  induction within using List.reverseRecOn with
  | nil =>
    constructor
    · intro none
      cases none
    · rintro ⟨before,known,after,split,_⟩
      exact absurd split.symm (List.append_ne_nil_of_right_ne_nil _ (List.cons_ne_nil _ _))
  | append_singleton within joinOperator ih =>
    rw [kept_snoc,marked_snoc,← ih]
    cases joinOperator <;> simp [nestedJoinEffect]

theorem marksEarlier_keeps (nullable : Bool) (joinOperator : JoinOperator) :
    (nestedJoinEffect nullable joinOperator).marksEarlier = (joinKind joinOperator).keepsRight := by
  cases joinOperator <;> rfl

theorem treeFlags_marks (tree : FromTree) (nullable : Bool) : (treeFlags tree nullable).marks = followedBy tree := by
  induction tree generalizing nullable with
  | unit => rfl
  | blank name => rfl
  | source name => rfl
  | join left joinOperator right ihLeft ihRight =>
    have parts : followedBy (.join left joinOperator right) =
        (followedBy left || ((joinKind joinOperator).keepsRight || followedBy right)) := by
      unfold followedBy
      rw [operators,List.any_append,List.any_cons]
    rw [treeFlags,parts,← ihLeft nullable,← marksEarlier_keeps nullable,← ihRight (nestedJoinEffect nullable joinOperator).nullable]
    rfl

-- The flag of each source from its place.
theorem treeFlags_places (tree : FromTree) (within : List JoinOperator) :
    (treeFlags tree (kept within)).own = (places tree within).map fun place => place.followed || kept place.within := by
  induction tree generalizing within with
  | unit => rfl
  | blank name => rfl
  | source name => rfl
  | join left joinOperator right ihLeft ihRight =>
    have inner := ihRight (within ++ [joinOperator])
    rw [kept_snoc] at inner
    rw [treeFlags,places,List.map_append,← inner,List.map_map]
    unfold FlagEffect.andThen
    dsimp only
    rw [treeFlags_marks,marksEarlier_keeps,ihLeft]
    cases (joinKind joinOperator).keepsRight || followedBy right with
    | false => simp [FlagEffect.apply,Function.comp_def,Place.before]
    | true => simp [FlagEffect.apply,Function.comp_def,Place.before,List.map_const']

theorem place_within {tree : FromTree} {within : List JoinOperator} {i : Nat} {place : Place}
    (is : (places tree within)[i]? = some place) : ∃ deeper,place.within = within ++ deeper ∧
      ((∃ joinOperator ∈ deeper,(joinKind joinOperator).keepsLeft = true) → (nullable joinKind tree)[i]? = some true) := by
  induction tree generalizing within i place with
  | unit => cases is
  | blank name => cases is
  | source name =>
    obtain ⟨_,member⟩ := List.mem_singleton.mp (List.mem_of_getElem? is)
    refine ⟨[],(List.append_nil _).symm,?_⟩
    rintro ⟨joinOperator,none,_⟩
    cases none
  | join left joinOperator right ihLeft ihRight =>
    have flagWidth := operand_width joinKind (joinKind joinOperator).keepsRight left
    have placeWidth : ((places left within).map (Place.before ((joinKind joinOperator).keepsRight || followedBy right))).length =
        left.width := by
      rw [List.length_map,places_width]
    rw [places] at is
    unfold nullable
    by_cases front : i < left.width
    · rw [List.getElem?_append_left (placeWidth.symm ▸ front),List.getElem?_map] at is
      obtain ⟨inner,here,rfl⟩ := Option.map_eq_some_iff.mp is
      obtain ⟨deeper,whole,null⟩ := ihLeft here
      refine ⟨deeper,whole,fun some => ?_⟩
      rw [List.getElem?_append_left (flagWidth.symm ▸ front)]
      split
      · exact List.getElem?_replicate_of_lt front
      · exact null some
    · have beyond : left.width ≤ i := Nat.not_lt.mp front
      rw [List.getElem?_append_right (placeWidth.symm ▸ beyond),placeWidth] at is
      obtain ⟨deeper,whole,null⟩ := ihRight is
      have short := (List.getElem?_eq_some_iff.mp is).1
      rw [places_width] at short
      refine ⟨joinOperator :: deeper,by rw [whole]; simp,fun some => ?_⟩
      rw [List.getElem?_append_right (flagWidth.symm ▸ beyond),flagWidth]
      split
      · exact List.getElem?_replicate_of_lt short
      · rename_i drops
        obtain ⟨known,member,keeps⟩ := some
        rcases List.mem_cons.mp member with rfl | inside
        · exact absurd keeps drops
        · exact null ⟨known,inside,keeps⟩

theorem nullable_place {tree : FromTree} {i : Nat} (null : (nullable joinKind tree)[i]? = some true) (within : List JoinOperator) :
    ∃ place,(places tree within)[i]? = some place ∧
      (place.followed = true ∨ ∃ joinOperator ∈ place.within,(joinKind joinOperator).keepsLeft = true) := by
  induction tree generalizing i within with
  | unit => cases null
  | blank name => cases null
  | source name =>
    have member := List.mem_singleton.mp (List.mem_of_getElem? null)
    cases member
  | join left joinOperator right ihLeft ihRight =>
    have flagWidth := operand_width joinKind (joinKind joinOperator).keepsRight left
    have placeWidth : ((places left within).map (Place.before ((joinKind joinOperator).keepsRight || followedBy right))).length =
        left.width := by
      rw [List.length_map,places_width]
    unfold nullable at null
    rw [places]
    by_cases front : i < left.width
    · rw [List.getElem?_append_left (flagWidth.symm ▸ front)] at null
      rw [List.getElem?_append_left (placeWidth.symm ▸ front),List.getElem?_map]
      split at null
      · rename_i keeps
        have some : i < (places left within).length := (places_width left within).symm ▸ front
        refine ⟨_,congrArg (Option.map _) (List.getElem?_eq_getElem some),.inl ?_⟩
        simp [Place.before,keeps]
      · obtain ⟨place,is,either⟩ := ihLeft null within
        refine ⟨_,congrArg (Option.map _) is,either.imp (fun followed => ?_) id⟩
        simp [Place.before,followed]
    · have beyond : left.width ≤ i := Nat.not_lt.mp front
      rw [List.getElem?_append_right (flagWidth.symm ▸ beyond),flagWidth] at null
      rw [List.getElem?_append_right (placeWidth.symm ▸ beyond),placeWidth]
      split at null
      · rename_i keeps
        have short := (List.getElem?_eq_some_iff.mp null).1
        rw [List.length_replicate,← places_width right (within ++ [joinOperator])] at short
        obtain ⟨deeper,whole,_⟩ := place_within (List.getElem?_eq_getElem short)
        refine ⟨_,List.getElem?_eq_getElem short,.inr ⟨joinOperator,?_,keeps⟩⟩
        rw [whole]
        simp
      · exact ihRight null (within ++ [joinOperator])

section
variable [CaseMap] [Printer] {catalog : Catalog} {sources : List TableWithJoins} {scope : Scope}

theorem scope_places (built : BuiltFrom catalog sources scope) (combining : Combining sources) :
    scope.flags = (places (fromTree sources) []).map fun place => place.followed || kept place.within := by
  rw [builtFrom_flags built,itemsFlags_tree combining]
  exact treeFlags_places _ []

-- Every source that the joins can extend by nulls is marked just if every one within a
-- LEFT, FULL or OUTER APPLY join is reached by a mark.
theorem nulls_marked_iff (built : BuiltFrom catalog sources scope) (combining : Combining sources) :
    NullsMarked sources scope ↔ NullsReached sources := by
  have flags := scope_places built combining
  constructor
  · intro marked place member null
    obtain ⟨i,is⟩ := List.mem_iff_getElem?.mp member
    obtain ⟨deeper,whole,extends'⟩ := place_within is
    rw [List.nil_append] at whole
    have flag := marked i (extended_iff.mpr (extends' (whole ▸ null)))
    rw [flags,List.getElem?_map,is,Option.map_some,Option.some.injEq,Bool.or_eq_true,kept_iff] at flag
    exact flag
  · intro reached i extended
    obtain ⟨place,is,either⟩ := nullable_place (extended_iff.mp extended) []
    have flag : place.followed = true ∨ Marked place.within := by
      rcases either with followed | null
      · exact .inl followed
      · exact reached place (List.mem_of_getElem? is) null
    rw [flags,List.getElem?_map,is,Option.map_some,Option.some.injEq,Bool.or_eq_true,kept_iff]
    exact flag

end

section Users
local instance joinsCase : CaseMap := ascii
local instance joinsPrinter : Printer := Fixtures.printer

def onId (left right : String) : Option Expr :=
  some (.binaryOp (Fixtures.qualified left "id") .eq (Fixtures.qualified right "id"))

-- FROM users a LEFT JOIN (users b JOIN users c ON b.id = c.id) ON a.id = b.id, with a kind
-- of join for the inner one
def nestedSources (joinOperator : JoinOperator) : List TableWithJoins :=
  [⟨Fixtures.aliased "users" "a",[⟨.nestedJoin ⟨Fixtures.aliased "users" "b",
    [⟨Fixtures.aliased "users" "c",joinOperator,onId "b" "c"⟩]⟩ none,.left,onId "a" "b"⟩]⟩]

theorem nested_left_marked : ∃ scope,BuiltFrom (Fixtures.catalog .postgreSQL) (nestedSources .left) scope ∧
    NullsMarked (nestedSources .left) scope := by
  have run : (((buildScopeFromFrom (methods (Fixtures.catalog .postgreSQL) 3) (nestedSources .left)).run .new).bind
      fun r => r.1.toOption).isSome = true := rfl
  obtain ⟨scope,built⟩ := builtFrom_of_run 3 run
  have combining : Combining (nestedSources .left) := by
    unfold Combining
    decide
  refine ⟨scope,built,(nulls_marked_iff built combining).mpr ?_⟩
  have each : ∀ place ∈ places (fromTree (nestedSources .left)) [],
      (place.within.any fun joinOperator => (joinKind joinOperator).keepsLeft) = true → kept place.within = true := by
    decide
  rintro place member ⟨joinOperator,among,keeps⟩
  exact .inr ((kept_iff _).mp (each place member (List.any_eq_true.mpr ⟨joinOperator,among,keeps⟩)))

-- A RIGHT join in parentheses takes the mark of the LEFT join around it off its operand.
theorem nested_right_unmarked : ∃ scope,BuiltFrom (Fixtures.catalog .postgreSQL) (nestedSources .right) scope ∧
    ¬NullsMarked (nestedSources .right) scope ∧ scope.flags = [true,true,false] := by
  have run : (((buildScopeFromFrom (methods (Fixtures.catalog .postgreSQL) 3) (nestedSources .right)).run .new).bind
      fun r => r.1.toOption).isSome = true := rfl
  obtain ⟨scope,built⟩ := builtFrom_of_run 3 run
  have combining : Combining (nestedSources .right) := by
    unfold Combining
    decide
  have flags : scope.flags = [true,true,false] := by
    rw [scope_places built combining]
    decide
  refine ⟨scope,built,?_,flags⟩
  intro marked
  have extended : Extended joinKind (fromTree (nestedSources .right)) 2 := extended_iff.mpr (by decide)
  have flag := marked 2 extended
  rw [flags] at flag
  cases flag

end Users

end Scythe.OuterJoins
