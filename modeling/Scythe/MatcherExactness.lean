import Scythe.MatcherRequirements
import Scythe.Lib.Letters

-- Whether the check of a rule's arguments tells the rules that can find something from
-- those that cannot.
namespace Scythe.MatcherArgs
open Text Letters

section Idle

theorem absent_kind {kinds known : List String} (idle : ¬∃ kind ∈ known,kind ∈ kinds) (kind : String)
    (member : kind ∈ known) : ¬kinds.contains kind = true :=
  fun listed => idle ⟨kind,member,List.contains_iff_mem.mp listed⟩

variable (library : SqlLibrary) (ctx : LintContext) {args : TomlTable}

theorem drop_idle (idle : ¬Driven args .dropStatement) : matchDropStatement library ctx args = [] := by
  have absent {kind : String} := absent_kind idle kind
  unfold matchDropStatement
  dsimp only
  split
  · rfl
  · split
    · exact if_neg (absent (by decide))
    · exact if_neg (absent (by decide))
    · exact if_neg (absent (by decide))
    · exact if_neg (absent (by decide))
    · rfl

theorem session_idle (idle : ¬Driven args .sessionMutation) : matchSessionMutation library ctx args = [] := by
  have absent {kind : String} := absent_kind idle kind
  unfold matchSessionMutation
  dsimp only
  split
  · rfl
  · split
    · unfold matchSet
      split
      · exact if_neg (absent (by decide))
      · exact if_neg (absent (by decide))
      · rfl
    · exact if_neg (absent (by decide))
    · rfl

theorem constraint_idle (idle : ¬Driven args .addConstraintWithoutUsingIndex) :
    matchAddConstraintWithoutUsingIndex library ctx args = [] := by
  have absent {kind : String} (member : kind ∈ constraintKinds) : (readKinds args).contains kind = false :=
    Bool.eq_false_iff.mpr (absent_kind idle _ member)
  unfold matchAddConstraintWithoutUsingIndex
  split
  · dsimp only
    rw [absent (by decide),absent (by decide)]
    rfl
  · rfl

-- A matcher that read nothing of use looks at no statement.
theorem idle_silent [CaseMap] {m : Matcher} (idle : ¬Driven args m) : m.run library ctx args = [] := by
  have empty {texts : List String} (none : ¬texts ≠ []) : texts.isEmpty = true := List.isEmpty_iff.mpr (not_not.mp none)
  cases m with
  | functionNameInSet => exact if_pos (empty idle)
  | weakHashOverSensitiveColumn =>
    refine if_pos ?_
    rcases not_and_or.mp idle with none | none
    · rw [empty none,Bool.true_or]
    · rw [empty none,Bool.or_true]
  | selectStarOverPiiColumns => exact if_pos (empty idle)
  | columnTypeDisallowed => exact if_pos (empty idle)
  | granteeIncludes => exact if_neg idle
  | grantKind => exact if_neg idle
  | dropStatement => exact drop_idle library ctx idle
  | sessionMutation => exact session_idle library ctx idle
  | addConstraintWithoutUsingIndex => exact constraint_idle library ctx idle
  | roleWithAttribute => exact if_pos (empty idle)

end Idle

section Firing
variable (library : SqlLibrary) {args : TomlTable}

theorem asciiLowercase_settled (text : String) : asciiLowercase (asciiLowercase text) = asciiLowercase text := by
  unfold asciiLowercase
  rw [String.toList_ofList,List.map_map]
  exact congrArg String.ofList (List.map_congr_left fun c _ => asciiLower_plain (asciiLower_never c))

theorem readStringList_lower {key text : String} (read : text ∈ readStringList args key) : asciiLowercase text = text := by
  obtain ⟨value,-,rfl⟩ := List.mem_map.mp read
  exact asciiLowercase_settled value

theorem pattern_found {text : String} (lower : asciiLowercase text = text) : contains (asciiLowercase text) text = true := by
  rw [lower]
  exact contains_iff.mpr (List.infix_refl _)

-- A call of a function over a column.
def callOver (name column : String) : Function :=
  ⟨[.identifier ⟨name,false⟩],.list [.unnamed (.expr (.identifier ⟨column,false⟩))] false [],none,false,none,[]⟩

def callQuery (name column : String) : LintContext :=
  ⟨.query (selectOf [.unnamedExpr (.function (callOver name column))] []),Catalog.new .postgreSQL⟩

theorem call_visited (name column : String) :
    Visited.expr (.function (callOver name column)) ∈ library.visited (callQuery name column).stmt :=
  library.visits_projection _

theorem inSet_own {functions : List String} {name column : String} (listed : name ∈ functions) :
    inSet functions (callOver name column).name = some name := by
  refine Option.filter_eq_some_iff.mpr ⟨rfl,?_⟩
  exact List.any_eq_true.mpr ⟨name,listed,decide_eq_true rfl⟩

theorem function_fires (driven : Driven args .functionNameInSet) :
    ∃ ctx,matchFunctionNameInSet library ctx args ≠ [] := by
  obtain ⟨name,listed⟩ := List.exists_mem_of_ne_nil _ driven
  refine ⟨callQuery name name,?_⟩
  unfold matchFunctionNameInSet
  dsimp only
  rw [if_neg fun empty => driven (List.isEmpty_iff.mp empty)]
  refine List.ne_nil_of_mem (List.mem_map.mpr ⟨name,List.mem_filterMap.mpr ⟨_,call_visited library name name,?_⟩,rfl⟩)
  exact inSet_own listed

theorem weakHash_fires (driven : Driven args .weakHashOverSensitiveColumn) :
    ∃ ctx,matchWeakHashOverSensitiveColumn library ctx args ≠ [] := by
  obtain ⟨name,listed⟩ := List.exists_mem_of_ne_nil _ driven.1
  obtain ⟨column,wanted⟩ := List.exists_mem_of_ne_nil _ driven.2
  have found : extractArg (readStringList args "column_patterns") (.unnamed (.expr (.identifier ⟨column,false⟩))) =
      some column :=
    if_pos (List.any_eq_true.mpr ⟨column,wanted,pattern_found (readStringList_lower wanted)⟩)
  refine ⟨callQuery name column,?_⟩
  unfold matchWeakHashOverSensitiveColumn
  dsimp only
  rw [if_neg fun empty => ?_]
  · have hit : MatcherHit.of [("func",asciiLowercase name),("column",column)] ∈
        hashedColumns (readStringList args "functions") (readStringList args "column_patterns")
          (.expr (.function (callOver name column))) := by
      unfold hashedColumns
      dsimp only
      rw [inSet_own listed]
      exact List.mem_map.mpr ⟨column,List.mem_filterMap.mpr ⟨_,List.mem_singleton.mpr rfl,found⟩,rfl⟩
    exact List.ne_nil_of_mem (List.mem_flatMap.mpr ⟨_,call_visited library name column,hit⟩)
  · rcases Bool.or_eq_true_iff.mp empty with none | none
    · exact driven.1 (List.isEmpty_iff.mp none)
    · exact driven.2 (List.isEmpty_iff.mp none)

section
variable [CaseMap]

def starName : ObjectName := [.identifier ⟨"t",false⟩]

-- SELECT * FROM t, where t has the column.
def starQuery (column : String) : LintContext where
  stmt := .query (selectOf [.wildcard [] []] [⟨.table starName none none [],[]⟩])
  catalog := { Catalog.new .postgreSQL with
    tables := (∅ : AHashMap Table).insert (CaseMap.lowercase (library.name starName)) ⟨[⟨column,"text",true,none,false⟩],"t"⟩ }

theorem star_registered (column : String) :
    tableOf library (starQuery library column).catalog starName = some ⟨[⟨column,"text",true,none,false⟩],"t"⟩ := by
  have found : (starQuery library column).catalog.getTable (library.name starName) =
      some ⟨[⟨column,"text",true,none,false⟩],"t"⟩ := by
    unfold Catalog.getTable lookupQualified starQuery
    dsimp only
    rw [AList.lookup_insert]
  unfold tableOf
  rw [found]
  rfl

theorem star_fires (driven : Driven args .selectStarOverPiiColumns) :
    ∃ ctx,matchSelectStarOverPiiColumns library ctx args ≠ [] := by
  obtain ⟨column,wanted⟩ := List.exists_mem_of_ne_nil _ driven
  have found : ((readStringList args "column_patterns").find? fun pattern => contains (asciiLowercase column) pattern) ≠ none :=
    fun none => absurd (pattern_found (readStringList_lower wanted)) (List.find?_eq_none.mp none column wanted)
  obtain ⟨pattern,is⟩ := Option.ne_none_iff_exists'.mp found
  refine ⟨starQuery library column,?_⟩
  unfold matchSelectStarOverPiiColumns
  dsimp only
  rw [if_neg fun empty => driven (List.isEmpty_iff.mp empty)]
  have hit : checkTableFactor library (readStringList args "column_patterns") (starQuery library column).catalog
      (.table starName none none []) ≠ [] := by
    unfold checkTableFactor
    dsimp only
    rw [star_registered]
    dsimp only
    rw [List.findSome?_cons,is]
    exact List.cons_ne_nil _ _
  intro silent
  unfold starQuery selectOf at silent
  dsimp only at silent
  rw [checkQuery,checkSetExpr,if_pos (by rfl),List.flatMap_singleton] at silent
  exact hit (List.append_eq_nil_iff.mp silent).1

end

theorem type_fires (driven : Driven args .columnTypeDisallowed) :
    ∃ ctx,matchColumnTypeDisallowed library ctx args ≠ [] := by
  obtain ⟨text,listed⟩ := List.exists_mem_of_ne_nil _ driven
  have same : asciiLowercase (library.dataType (.custom [.identifier ⟨text,false⟩] [])) = text := by
    rw [library.prints_custom]
    exact readStringList_lower listed
  have barred : isDisallowed text (readStringList args "disallowed") = true :=
    List.any_eq_true.mpr ⟨text,listed,by rw [decide_eq_true rfl,Bool.true_or]⟩
  refine ⟨⟨.createTable [] [(⟨"c",false⟩,.custom [.identifier ⟨text,false⟩] [])],Catalog.new .postgreSQL⟩,?_⟩
  unfold matchColumnTypeDisallowed
  dsimp only
  rw [if_neg fun empty => driven (List.isEmpty_iff.mp empty)]
  have hit : disallowedColumn library (library.name []) (readText args "suggested") (readStringList args "disallowed")
      ⟨"c",false⟩ (.custom [.identifier ⟨text,false⟩] []) ≠ none := by
    unfold disallowedColumn
    dsimp only
    rw [same,if_pos barred]
    exact Option.some_ne_none _
  obtain ⟨reported,is⟩ := Option.ne_none_iff_exists'.mp hit
  exact List.ne_nil_of_mem (List.mem_filterMap.mpr ⟨_,List.mem_singleton.mpr rfl,is⟩)

-- Statements of every kind that the matchers of kinds look for.
def droppedBy (kind : String) : AuditStatement :=
  if kind = "table" then .drop .table [[]]
  else if kind = "database" then .drop .database [[]]
  else if kind = "schema" then .drop .schema [[]]
  else .alterTable [] [.dropColumn [⟨"c",false⟩]]

theorem drop_fires (driven : Driven args .dropStatement) : ∃ ctx,matchDropStatement library ctx args ≠ [] := by
  obtain ⟨kind,known,listed⟩ := driven
  have given : (readStringList args "kinds").contains kind = true := List.contains_iff_mem.mpr listed
  refine ⟨⟨droppedBy kind,Catalog.new .postgreSQL⟩,?_⟩
  unfold matchDropStatement
  dsimp only
  rw [if_neg fun empty => List.ne_nil_of_mem listed (List.isEmpty_iff.mp empty)]
  simp only [dropKinds,List.mem_cons,List.not_mem_nil,or_false] at known
  rcases known with rfl | rfl | rfl | rfl
  all_goals
    change (if _ then _ else _) ≠ []
    rw [if_pos given]
    exact List.cons_ne_nil _ _

def mutatedBy (kind : String) : AuditStatement :=
  if kind = "set_role" then .set (.setRole none)
  else if kind = "set_session_authorization" then .set (.setSessionAuthorization .default)
  else .reset (.configurationParameter [.identifier ⟨"role",false⟩])

theorem session_fires (driven : Driven args .sessionMutation) : ∃ ctx,matchSessionMutation library ctx args ≠ [] := by
  obtain ⟨kind,known,listed⟩ := driven
  have given : (readStringList args "kinds").contains kind = true := List.contains_iff_mem.mpr listed
  refine ⟨⟨mutatedBy kind,Catalog.new .postgreSQL⟩,?_⟩
  unfold matchSessionMutation
  dsimp only
  rw [if_neg fun empty => List.ne_nil_of_mem listed (List.isEmpty_iff.mp empty)]
  simp only [sessionKinds,List.mem_cons,List.not_mem_nil,or_false] at known
  rcases known with rfl | rfl | rfl
  all_goals
    change (if _ then _ else _) ≠ []
    rw [if_pos given]
    exact List.cons_ne_nil _ _

theorem constraint_fires (driven : Driven args .addConstraintWithoutUsingIndex) :
    ∃ ctx,matchAddConstraintWithoutUsingIndex library ctx args ≠ [] := by
  obtain ⟨kind,known,listed⟩ := driven
  have given : (readKinds args).contains kind = true := List.contains_iff_mem.mpr listed
  refine ⟨⟨.alterTable [] [.addConstraint (.unique none),.addConstraint (.primaryKey none)],Catalog.new .postgreSQL⟩,?_⟩
  unfold matchAddConstraintWithoutUsingIndex
  dsimp only
  simp only [constraintKinds,List.mem_cons,List.not_mem_nil,or_false] at known
  rcases known with rfl | rfl
  · rw [given]
    cases (readKinds args).contains "primary_key" with
    | false => exact List.cons_ne_nil _ _
    | true => exact List.cons_ne_nil _ _
  · rw [given]
    cases (readKinds args).contains "unique" with
    | false => exact List.cons_ne_nil _ _
    | true => exact List.cons_ne_nil _ _

theorem normalized_recognized {value attr : String} (known : normalizeAttribute value = some attr) :
    attr ∈ recognizedAttributes := by
  unfold normalizeAttribute at known
  split at known
  · cases known
    exact List.contains_iff_mem.mp ‹_›
  · cases known

theorem wanted_recognized {attr : String} (wanted : attr ∈ readWantedAttributes args) : attr ∈ recognizedAttributes := by
  unfold readWantedAttributes at wanted
  dsimp only at wanted
  split at wanted
  · obtain ⟨_,-,known⟩ := Option.bind_eq_some_iff.mp (Option.mem_toList.mp wanted)
    exact normalized_recognized known
  · obtain ⟨_,-,known⟩ := List.mem_filterMap.mp wanted
    exact normalized_recognized known

-- A role with every attribute.
def fullRole : CreateRole := ⟨[],some true,some true,some true,some true,some true⟩

theorem fullRole_set {attr : String} (known : attr ∈ recognizedAttributes) : attributeSetOnCreateRole fullRole attr = true := by
  simp only [recognizedAttributes,List.mem_cons,List.not_mem_nil,or_false] at known
  rcases known with rfl | rfl | rfl | rfl | rfl
  all_goals decide

theorem role_fires (driven : Driven args .roleWithAttribute) : ∃ ctx,matchRoleWithAttribute library ctx args ≠ [] := by
  obtain ⟨attr,wanted⟩ := List.exists_mem_of_ne_nil _ driven
  refine ⟨⟨.createRole fullRole,Catalog.new .postgreSQL⟩,?_⟩
  unfold matchRoleWithAttribute
  dsimp only
  rw [if_neg fun empty => driven (List.isEmpty_iff.mp empty)]
  refine List.ne_nil_of_mem (List.mem_map.mpr ⟨attr,List.mem_filter.mpr ⟨wanted,?_⟩,rfl⟩)
  exact fullRole_set (wanted_recognized wanted)

-- A statement over which a matcher that read something of use has a hit.
theorem driven_fires [CaseMap] {m : Matcher} (driven : Driven args m) : ∃ ctx,m.run library ctx args ≠ [] := by
  cases m with
  | functionNameInSet => exact function_fires library driven
  | weakHashOverSensitiveColumn => exact weakHash_fires library driven
  | selectStarOverPiiColumns => exact star_fires library driven
  | columnTypeDisallowed => exact type_fires library driven
  | granteeIncludes =>
    refine ⟨⟨.grant false [true],Catalog.new .postgreSQL⟩,?_⟩
    have read : readText args "grantee" = "public" := driven
    unfold Matcher.run matchGranteeIncludes
    dsimp only
    rw [if_pos read]
    exact List.cons_ne_nil _ _
  | grantKind =>
    refine ⟨⟨.grant true [],Catalog.new .postgreSQL⟩,?_⟩
    have read : readText args "kind" = "all" := driven
    unfold Matcher.run matchGrantKind
    dsimp only
    rw [if_pos read]
    exact List.cons_ne_nil _ _
  | dropStatement => exact drop_fires library driven
  | sessionMutation => exact session_fires library driven
  | addConstraintWithoutUsingIndex => exact constraint_fires library driven
  | roleWithAttribute => exact role_fires library driven

end Firing

section Exactness
variable {args : TomlTable}

-- The tenth reads its kinds without the lower case that the check gives them.
def Unlowered (args : TomlTable) : Prop :=
  (∃ kind ∈ readKinds args,asciiLowercase kind ∈ constraintKinds) ∧ ∀ kind ∈ readKinds args,kind ∉ constraintKinds

theorem constraint_satisfied : Satisfied args Matcher.addConstraintWithoutUsingIndex.requirement ↔
    ∃ kind ∈ readKinds args,asciiLowercase kind ∈ constraintKinds := by
  refine listed_allowed.trans ⟨?_,?_⟩
  · rintro ⟨kind,fits,inside⟩
    obtain ⟨value,there,rfl⟩ := List.mem_map.mp inside
    exact ⟨value,there,fits⟩
  · rintro ⟨value,there,fits⟩
    exact ⟨_,fits,List.mem_map.mpr ⟨value,there,rfl⟩⟩

theorem constraint_driven (driven : Driven args .addConstraintWithoutUsingIndex) :
    ∃ kind ∈ readKinds args,asciiLowercase kind ∈ constraintKinds := by
  obtain ⟨kind,fits,inside⟩ := driven
  have same : asciiLowercase kind = kind := by
    rcases List.mem_cons.mp fits with rfl | fits
    · decide
    · cases List.mem_singleton.mp fits
      decide
  exact ⟨kind,inside,same.symm ▸ fits⟩

variable [TomlPrinter]

theorem validate_ok (m : Matcher) : validateMatcherArgs m.name args = .ok () ↔ Satisfied args m.requirement := by
  have found : validateMatcherArgs m.name args = checkRequirement m.name args m.requirement := by
    cases m
    all_goals rfl
  rw [found]
  exact checkRequirement_ok _ _ _

variable [CaseMap] (library : SqlLibrary)

-- Refused arguments find nothing anywhere, and accepted ones find something somewhere.
structure ExactValidation (m : Matcher) (args : TomlTable) : Prop where
  refused : ∀ error,validateMatcherArgs m.name args = .error error → ∀ ctx,m.run library ctx args = []
  accepted : validateMatcherArgs m.name args = .ok () → ∃ ctx,m.run library ctx args ≠ []

theorem exact_iff {m : Matcher} : ExactValidation library m args ↔ (Satisfied args m.requirement ↔ Driven args m) := by
  constructor
  · intro exactly
    constructor
    · intro satisfied
      obtain ⟨ctx,hit⟩ := exactly.accepted ((validate_ok m).mpr satisfied)
      exact Classical.by_contradiction fun idle => hit (idle_silent library ctx idle)
    · intro driven
      obtain ⟨ctx,hit⟩ := driven_fires library driven
      cases checked : validateMatcherArgs m.name args with
      | ok done => exact (validate_ok m).mp checked
      | error error => exact absurd (exactly.refused error checked ctx) hit
  · intro same
    refine ⟨fun error checked ctx => idle_silent library ctx fun driven => ?_,fun checked => ?_⟩
    · rw [(validate_ok m).mpr (same.mpr driven)] at checked
      cases checked
    · exact driven_fires library (same.mp ((validate_ok m).mp checked))

theorem validation_exact_iff (m : Matcher) (args : TomlTable) :
    ExactValidation library m args ↔ ¬(m = .addConstraintWithoutUsingIndex ∧ Unlowered args) := by
  rw [exact_iff]
  by_cases other : m = .addConstraintWithoutUsingIndex
  · subst other
    rw [constraint_satisfied]
    have idle : ¬Driven args .addConstraintWithoutUsingIndex ↔ ∀ kind ∈ readKinds args,kind ∉ constraintKinds := by
      unfold Driven
      push Not
      exact ⟨fun none kind inside fits => none kind fits inside,fun none kind fits inside => none kind inside fits⟩
    unfold Unlowered
    rw [← idle]
    constructor
    · intro same both
      exact both.2.2 (same.mp both.2.1)
    · intro sound
      refine ⟨fun found => ?_,constraint_driven⟩
      exact Classical.by_contradiction fun idle => sound ⟨rfl,found,idle⟩
  · exact iff_of_true (satisfied_iff other) fun both => other both.1

end Exactness

section Uppercase

def partText : ObjectNamePart → String
  | .identifier ident => ident.value
  | .function => ""

def typeText : DataType → String
  | .custom [.identifier ident] [] => ident.value
  | _ => ""

def projected : AuditStatement → List Visited
  | .query ⟨_,.select ⟨projection,_,_,_,_,_⟩,_,_,_⟩ =>
    projection.filterMap fun item =>
      match item with
      | .unnamedExpr expr => some (.expr expr)
      | _ => none
  | _ => []

def plainLibrary : SqlLibrary where
  name name := join "." (name.map partText)
  ident ident := ident.value
  dataType := typeText
  visited := projected
  prints_custom _ := rfl
  visits_projection _ := List.mem_singleton.mpr rfl

def plainToml : TomlValue → String
  | .string text => text
  | .array _ => ""
  | .other text => text

local instance plainPrinter : TomlPrinter := ⟨plainToml⟩
local instance plainCase : CaseMap := ascii

def uppercaseKinds : TomlTable := (∅ : TomlTable).insert "kinds" (.array [.string "UNIQUE"])

-- The check folds the kind to lower case, and the matcher does not.
theorem uppercase_kind_silent : ¬ExactValidation plainLibrary .addConstraintWithoutUsingIndex uppercaseKinds := by
  intro exactly
  have read : readKinds uppercaseKinds = ["UNIQUE"] := rfl
  have accepted : Satisfied uppercaseKinds Matcher.addConstraintWithoutUsingIndex.requirement :=
    constraint_satisfied.mpr ⟨"UNIQUE",read ▸ List.mem_singleton.mpr rfl,by decide⟩
  obtain ⟨ctx,hit⟩ := exactly.accepted ((validate_ok _).mpr accepted)
  refine hit (constraint_idle plainLibrary ctx ?_)
  rintro ⟨kind,fits,inside⟩
  rw [read] at inside
  cases List.mem_singleton.mp inside
  exact absurd fits (by decide)

end Uppercase

end Scythe.MatcherArgs
