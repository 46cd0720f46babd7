import Scythe.LintCoverage
import Scythe.MatcherExactness

-- The rule about wildcards, by the columns that the wildcards of a statement expand to.
namespace Scythe.PiiWildcards
open Text TreeWalk MatcherArgs LintRules

section Expansion

-- A relation of a FROM, and what it is called there where that is not its name.
structure Relation where
  name : ObjectName
  calledAs : Option Ident

mutual

def factorRelations (called : Option Ident) : TableFactor → List Relation
  | .table name tableAlias none _ => [⟨name,called.or (tableAlias.map (·.name))⟩]
  | .nestedJoin tables tableAlias => tablesRelations (called.or (tableAlias.map (·.name))) tables
  | _ => []

def tablesRelations (called : Option Ident) : TableWithJoins → List Relation
  | ⟨relation,joins⟩ => factorRelations called relation ++ joinsRelations called joins

def joinsRelations (called : Option Ident) : List Join → List Relation
  | [] => []
  | join :: joins => joinRelations called join ++ joinsRelations called joins

-- A semi or an anti join gives no columns of what it joins with.
def joinRelations (called : Option Ident) : Join → List Relation
  | ⟨relation,joinOperator,_⟩ =>
    if joinOperator = .leftSemi || joinOperator = .leftAnti then [] else factorRelations called relation

end

def relations (select : Select) : List Relation := select.sources.flatMap (tablesRelations none)

def foldIdent (ident : Ident) : String := if ident.quoted then ident.value else asciiLowercase ident.value

def sameIdent (a b : Ident) : Bool := foldIdent a = foldIdent b

def samePart : ObjectNamePart → ObjectNamePart → Bool
  | .identifier a,.identifier b => sameIdent a b
  | _,_ => false

-- A qualifier names a relation as it is called, or else by the last parts of its name.
def Relation.named (relation : Relation) (qualifier : ObjectName) : Bool :=
  match relation.calledAs with
  | some called =>
    match qualifier with
    | [part] => samePart part (.identifier called)
    | _ => false
  | none => !qualifier.isEmpty && (qualifier.reverse.zip relation.name.reverse).all fun parts => samePart parts.1 parts.2

def leftOut : SelectItem → List Ident
  | .wildcard leftOut _ | .qualifiedWildcard _ leftOut _ => leftOut
  | _ => []

-- The names of the common tables that a step leads into the scope of.
def cteNames : SyntaxStep → List Ident
  | .cte names | .scope names => names
  | _ => []

def isCommonTable (steps : List SyntaxStep) : ObjectName → Bool
  | [.identifier ident] => (steps.flatMap cteNames).any (sameIdent ident)
  | _ => false

-- Which relation of a SELECT an expression stands for the whole row of is for the database to say.
variable (wholeRow : Select → Expr → Relation → Bool)

def covers (select : Select) (relation : Relation) : SelectItem → Bool
  | .wildcard _ _ => true
  | .qualifiedWildcard (.objectName qualifier) _ _ => relation.named qualifier
  | .qualifiedWildcard (.expr e) _ _ => wholeRow select e relation
  | _ => false

variable [CaseMap]

-- A wildcard expands to a column that a pattern is found in.
def expandsTo (patterns : List String) (catalog : Catalog) (select : Select) (relation : Relation) (item : SelectItem) : Bool :=
  covers wholeRow select relation item &&
    (catalog.getTable (objectNameToKey relation.name)).any fun table => table.columns.any fun column =>
      !((leftOut item).any fun ident => MatcherArgs.eqIgnoreAsciiCase ident.value column.name) && sensitive patterns column.name

end Expansion

section Reports
variable [CaseMap] (library : SqlLibrary)

def auditOf : Statement → AuditStatement
  | .query query => .query query
  | .insert insert => .insert insert
  | .update update => .update update
  | .delete delete => .delete delete
  | .other => .other

def Reports (catalog : Catalog) (args : TomlTable) (stmt : Statement) (name : String) : Prop :=
  ∃ hit ∈ matchSelectStarOverPiiColumns library ⟨auditOf stmt,catalog⟩ args,hit.bindings.lookup "table" = some name

-- The steps that the rule takes from a statement to a SELECT.
def looked : SyntaxStep → Bool
  | .statementQuery | .scope _ | .body | .selectBody | .innerQuery | .arm => true
  | _ => false

def directFactors (select : Select) : List TableFactor :=
  select.sources.flatMap fun tables => tables.relation :: tables.joins.map (·.relation)

-- The name under which the rule tells of a table that it looks at.
def toldName (patterns : List String) (catalog : Catalog) : TableFactor → Option String
  | .table name _ _ _ =>
    if (MatcherArgs.tableOf library catalog name).any fun table => table.columns.any fun column => sensitive patterns column.name then
      some (library.name name)
    else none
  | _ => none

def Looks (patterns : List String) (catalog : Catalog) (stmt : Statement) (name : String) : Prop :=
  ∃ place ∈ syntaxTree.located (.statement stmt),place.1.all looked = true ∧ ∃ select,place.2 = .select select ∧
    select.projection.any isWildcard = true ∧ ∃ factor ∈ directFactors select,toldName library patterns catalog factor = some name

omit [CaseMap] in
theorem hit_table (table column pattern : String) :
    (MatcherHit.of [("table",table),("column",column),("pattern",pattern)]).bindings.lookup "table" = some table := by
  change (((∅ : AHashMap String).insert "table" table).insert "column" column |>.insert "pattern" pattern).lookup "table" = _
  rw [AList.lookup_insert_ne (by decide),AList.lookup_insert_ne (by decide),AList.lookup_insert]

variable (patterns : List String) (catalog : Catalog)

theorem factor_told (factor : TableFactor) (told : String) :
    (∃ hit ∈ checkTableFactor library patterns catalog factor,hit.bindings.lookup "table" = some told) ↔
      toldName library patterns catalog factor = some told := by
  cases factor with
  | table name tableAlias args unread =>
    rw [checkTableFactor,toldName]
    cases MatcherArgs.tableOf library catalog name with
    | none => simp
    | some table =>
      rw [Option.any_some]
      dsimp only
      cases found : table.columns.findSome? fun column =>
        (patterns.find? fun pattern => contains (asciiLowercase column.name) pattern).map fun pattern =>
          MatcherHit.of [("table",library.name name),("column",column.name),("pattern",pattern)] with
      | none =>
        have clean : ¬(table.columns.any fun column => sensitive patterns column.name) = true := by
          rw [List.any_eq_true]
          rintro ⟨column,member,sensed⟩
          have unmatched := Option.map_eq_none_iff.mp (List.findSome?_eq_none_iff.mp found column member)
          obtain ⟨pattern,listed,inside⟩ := List.any_eq_true.mp sensed
          exact List.find?_eq_none.mp unmatched pattern listed inside
        rw [if_neg clean]
        simp
      | some hit =>
        obtain ⟨column,member,matched⟩ := List.exists_of_findSome?_eq_some found
        obtain ⟨pattern,first,rfl⟩ := Option.map_eq_some_iff.mp matched
        have sensed : (table.columns.any fun column => sensitive patterns column.name) = true :=
          List.any_eq_true.mpr ⟨column,member,List.any_eq_true.mpr
            ⟨pattern,List.mem_of_find?_eq_some first,List.find?_some first⟩⟩
        rw [if_pos sensed,Option.toList_some]
        simp [hit_table]
  | _ => simp [checkTableFactor,toldName]

def selectHits (select : Select) : List MatcherHit :=
  if select.projection.any isWildcard then select.sources.flatMap (checkTableWithJoins library patterns catalog) else []

theorem selectHits_told (select : Select) (told : String) :
    (∃ hit ∈ selectHits library patterns catalog select,hit.bindings.lookup "table" = some told) ↔
      select.projection.any isWildcard = true ∧
        ∃ factor ∈ directFactors select,toldName library patterns catalog factor = some told := by
  unfold selectHits
  by_cases starred : select.projection.any isWildcard = true
  · rw [if_pos starred]
    have flat : select.sources.flatMap (checkTableWithJoins library patterns catalog) =
        (directFactors select).flatMap (checkTableFactor library patterns catalog) := by
      unfold directFactors
      rw [List.flatMap_assoc]
      refine congrArg (fun hits => select.sources.flatMap hits) (funext fun tables => ?_)
      rw [checkTableWithJoins,List.flatMap_cons,List.flatMap_map]
    rw [flat]
    constructor
    · rintro ⟨hit,inside,named⟩
      obtain ⟨factor,member,inside⟩ := List.mem_flatMap.mp inside
      exact ⟨starred,factor,member,(factor_told library patterns catalog factor told).mp ⟨hit,inside,named⟩⟩
    · rintro ⟨-,factor,member,is⟩
      obtain ⟨hit,inside,named⟩ := (factor_told library patterns catalog factor told).mpr is
      exact ⟨hit,List.mem_flatMap.mpr ⟨factor,member,inside⟩,named⟩
  · rw [if_neg starred]
    exact iff_of_false (fun given => List.not_mem_nil given.choose_spec.1) fun given => starred given.1

mutual

theorem checkSetExpr_walks : ∀ body,checkSetExpr library patterns catalog body =
    walkSetExpr (selectHits library patterns catalog) body
  | .select select => by rw [checkSetExpr,walkSetExpr,selectHits]
  | .query query => by rw [checkSetExpr,walkSetExpr,checkQuery_walks query]
  | .setOperation op left right => by
    rw [checkSetExpr,walkSetExpr,checkSetExpr_walks left,checkSetExpr_walks right]
  | .values rows => by rw [checkSetExpr,walkSetExpr] <;> simp
  | .other unread => by rw [checkSetExpr,walkSetExpr] <;> simp

theorem checkQuery_walks : ∀ query,checkQuery library patterns catalog query =
    walkQuery (selectHits library patterns catalog) query
  | ⟨withClause,body,orderBy,limitClause,unread⟩ => by rw [checkQuery,walkQuery,checkSetExpr_walks body]

end

def ownHits : SyntaxNode → List MatcherHit
  | .select select => selectHits library patterns catalog select
  | _ => []

def hitsOf : SyntaxNode → List MatcherHit
  | .statement (.query query) => walkQuery (selectHits library patterns catalog) query
  | .query query | .scope query => walkQuery (selectHits library patterns catalog) query
  | .body body => walkSetExpr (selectHits library patterns catalog) body
  | .select select => selectHits library patterns catalog select
  | _ => []

omit [CaseMap] in
theorem expr_unlooked {step : SyntaxStep} (own : ofExpr step = true) : looked step = false := by
  cases step
  all_goals first | rfl | cases own

theorem hits_walk : Walk (ownHits library patterns catalog) looked (hitsOf library patterns catalog)
    (selectHits library patterns catalog) where
  ownStatement _ := rfl
  ownQuery _ := rfl
  ownScope _ := rfl
  ownBody _ := rfl
  ownFactor _ := rfl
  skips := by decide
  takes := by decide
  statementQuery := rfl
  body := rfl
  cte _ := rfl
  scope _ := rfl
  ofQuery _ := rfl
  ofUpdate _ := rfl
  ofDelete _ := rfl
  ofInsert _ := rfl
  ofOther := rfl
  queries _ := rfl
  scopes _ := rfl
  bodies _ := rfl
  selects _ := rfl
  factors _ := rfl
  select_goes s := by
    have none : (s.projection.flatMap fun item => follow looked (hitsOf library patterns catalog) item.parts) = [] :=
      List.flatMap_eq_nil_iff.mpr fun item _ => follow_item (by decide) item
    rw [follow_select (by decide),none]
    exact (List.append_nil _).symm
  tables_goes t := (follow_joins rfl (fun _ => rfl) (fun _ => rfl) t).symm
  expr_goes e := (follow_skipped fun part member => expr_unlooked (expr_among e part member).1).symm

theorem hits_told (stmt : Statement) (name : String) :
    (∃ hit ∈ hitsOf library patterns catalog (.statement stmt),hit.bindings.lookup "table" = some name) ↔
      Looks library patterns catalog stmt name := by
  rw [(hits_walk library patterns catalog).reached]
  constructor
  · rintro ⟨hit,inside,named⟩
    obtain ⟨node,reached,inside⟩ := List.mem_flatMap.mp inside
    obtain ⟨place,listed,rfl⟩ := List.mem_map.mp reached
    obtain ⟨there,all⟩ := List.mem_filter.mp listed
    cases is : place.2 with
    | select select =>
      rw [is] at inside
      exact ⟨place,there,all,select,is,(selectHits_told library patterns catalog select name).mp ⟨hit,inside,named⟩⟩
    | _ =>
      rw [is] at inside
      cases inside
  · rintro ⟨place,there,all,select,is,told⟩
    obtain ⟨hit,inside,named⟩ := (selectHits_told library patterns catalog select name).mpr told
    refine ⟨hit,List.mem_flatMap.mpr ⟨place.2,List.mem_map.mpr ⟨place,List.mem_filter.mpr ⟨there,all⟩,rfl⟩,?_⟩,named⟩
    rw [is]
    exact inside

theorem toldName_nil (factor : TableFactor) : toldName library [] catalog factor = none := by
  cases factor with
  | table name tableAlias args unread =>
    have clean (columns : List Column) : (columns.any fun column => sensitive [] column.name) = false :=
      List.any_eq_false.mpr fun _ _ => Bool.false_ne_true
    rw [toldName]
    cases MatcherArgs.tableOf library catalog name with
    | none => rfl
    | some table => rw [Option.any_some,clean,if_neg Bool.false_ne_true]
  | _ => rfl

-- The rule tells of the tables that it looks at.
theorem reports_iff (args : TomlTable) (stmt : Statement) (name : String) :
    Reports library catalog args stmt name ↔ Looks library (readStringList args "column_patterns") catalog stmt name := by
  have hits : matchSelectStarOverPiiColumns library ⟨auditOf stmt,catalog⟩ args =
      if (readStringList args "column_patterns").isEmpty then []
      else hitsOf library (readStringList args "column_patterns") catalog (.statement stmt) := by
    unfold matchSelectStarOverPiiColumns
    cases stmt with
    | query query =>
      simp only [auditOf,checkQuery_walks]
      rfl
    | _ => rfl
  unfold Reports
  rw [hits]
  by_cases empty : (readStringList args "column_patterns").isEmpty = true
  · rw [if_pos empty,List.isEmpty_iff.mp empty]
    refine iff_of_false (fun given => List.not_mem_nil given.choose_spec.1) ?_
    rintro ⟨_,_,_,_,_,_,factor,_,told⟩
    rw [toldName_nil] at told
    cases told
  · rw [if_neg empty]
    exact hits_told library _ catalog stmt name

end Reports

section Exactness
variable [CaseMap] (library : SqlLibrary) (wholeRow : Select → Expr → Relation → Bool)

-- Some wildcard of some SELECT of the statement expands to such a column of the table.
def Exposes (patterns : List String) (catalog : Catalog) (stmt : Statement) (name : String) : Prop :=
  ∃ place ∈ syntaxTree.located (.statement stmt),∃ select,place.2 = .select select ∧
    ∃ relation ∈ relations select,library.name relation.name = name ∧ isCommonTable place.1 relation.name = false ∧
      ∃ item ∈ select.projection,expandsTo wholeRow patterns catalog select relation item = true

-- What the rule looks at is what the wildcards expose.
structure Agreement (patterns : List String) (catalog : Catalog) (stmt : Statement) : Prop where
  looked : ∀ name,Looks library patterns catalog stmt name → Exposes library wholeRow patterns catalog stmt name
  exposed : ∀ name,Exposes library wholeRow patterns catalog stmt name → Looks library patterns catalog stmt name

end Exactness

section Missed

local instance piiCase : CaseMap := ascii

def everyUser : Select :=
  ⟨[.wildcard [] []],[⟨.table [.identifier ⟨"users",false⟩] none none [],[]⟩],none,.expressions [],none,[]⟩

-- SELECT * FROM users
def everyUserQuery : Query := ⟨none,.select everyUser,[],none,[]⟩

-- SELECT id FROM (SELECT * FROM users) u
def derivedUsers : Query :=
  selectOf [.unnamedExpr (.identifier ⟨"id",false⟩)] [⟨.derived everyUserQuery (some ⟨⟨"u",false⟩,[]⟩),[]⟩]

def usersCatalog : Catalog :=
  { Catalog.new .postgreSQL with
    tables := (∅ : AHashMap Table).insert "users" ⟨[⟨"email","text",true,none,false⟩],"users"⟩ }

def emailPatterns : TomlTable := (∅ : TomlTable).insert "column_patterns" (.array [.string "email"])

end Missed

end Scythe.PiiWildcards
