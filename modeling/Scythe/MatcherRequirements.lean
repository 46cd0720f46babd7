import Scythe.AuditMatchers

-- What the declared requirements ask of the arguments, and what the matchers read of them.
namespace Scythe.MatcherArgs
open Text

section Matchers

-- The matchers that declare a requirement.
inductive Matcher where
  | functionNameInSet
  | weakHashOverSensitiveColumn
  | selectStarOverPiiColumns
  | columnTypeDisallowed
  | granteeIncludes
  | grantKind
  | dropStatement
  | sessionMutation
  | addConstraintWithoutUsingIndex
  | roleWithAttribute
  deriving DecidableEq

def Matcher.name : Matcher → String
  | .functionNameInSet => "function_name_in_set"
  | .weakHashOverSensitiveColumn => "weak_hash_over_sensitive_column"
  | .selectStarOverPiiColumns => "select_star_over_pii_columns"
  | .columnTypeDisallowed => "column_type_disallowed"
  | .granteeIncludes => "grantee_includes"
  | .grantKind => "grant_kind"
  | .dropStatement => "drop_statement"
  | .sessionMutation => "session_mutation"
  | .addConstraintWithoutUsingIndex => "add_constraint_without_using_index"
  | .roleWithAttribute => "role_with_attribute"

def dropKinds : List String := ["table","database","schema","column"]
def sessionKinds : List String := ["set_role","set_session_authorization","reset_role"]
def constraintKinds : List String := ["unique","primary_key"]

def Matcher.requirement : Matcher → Requirement
  | .functionNameInSet => .allNonEmptyLists ["functions"]
  | .weakHashOverSensitiveColumn => .allNonEmptyLists ["functions","column_patterns"]
  | .selectStarOverPiiColumns => .allNonEmptyLists ["column_patterns"]
  | .columnTypeDisallowed => .allNonEmptyLists ["disallowed"]
  | .granteeIncludes => .anyKeyIntersects [("grantee",.scalar)] ["public"] false
  | .grantKind => .anyKeyIntersects [("kind",.scalar)] ["all"] false
  | .dropStatement => .anyKeyIntersects [("kinds",.list)] dropKinds true
  | .sessionMutation => .anyKeyIntersects [("kinds",.list)] sessionKinds true
  | .addConstraintWithoutUsingIndex => .anyKeyIntersects [("kinds",.list)] constraintKinds true
  | .roleWithAttribute => .anyKeyIntersects [("attributes",.list),("attribute",.scalar)] recognizedAttributes true

def declared : List Matcher :=
  [.functionNameInSet,.weakHashOverSensitiveColumn,.selectStarOverPiiColumns,.columnTypeDisallowed,.granteeIncludes,
    .grantKind,.dropStatement,.sessionMutation,.addConstraintWithoutUsingIndex,.roleWithAttribute]

theorem requirements_declared : requirements = declared.map fun m => (m.name,m.requirement) := rfl

def Matcher.run [CaseMap] (library : SqlLibrary) (ctx : LintContext) (args : TomlTable) : Matcher → List MatcherHit
  | .functionNameInSet => matchFunctionNameInSet library ctx args
  | .weakHashOverSensitiveColumn => matchWeakHashOverSensitiveColumn library ctx args
  | .selectStarOverPiiColumns => matchSelectStarOverPiiColumns library ctx args
  | .columnTypeDisallowed => matchColumnTypeDisallowed library ctx args
  | .granteeIncludes => matchGranteeIncludes ctx args
  | .grantKind => matchGrantKind ctx args
  | .dropStatement => matchDropStatement library ctx args
  | .sessionMutation => matchSessionMutation library ctx args
  | .addConstraintWithoutUsingIndex => matchAddConstraintWithoutUsingIndex library ctx args
  | .roleWithAttribute => matchRoleWithAttribute library ctx args

-- What a matcher reads of its arguments before it looks at a statement.
def Driven (args : TomlTable) : Matcher → Prop
  | .functionNameInSet => readStringList args "functions" ≠ []
  | .weakHashOverSensitiveColumn => readStringList args "functions" ≠ [] ∧ readStringList args "column_patterns" ≠ []
  | .selectStarOverPiiColumns => readStringList args "column_patterns" ≠ []
  | .columnTypeDisallowed => readStringList args "disallowed" ≠ []
  | .granteeIncludes => readText args "grantee" = "public"
  | .grantKind => readText args "kind" = "all"
  | .dropStatement => ∃ kind ∈ dropKinds,kind ∈ readStringList args "kinds"
  | .sessionMutation => ∃ kind ∈ sessionKinds,kind ∈ readStringList args "kinds"
  | .addConstraintWithoutUsingIndex => ∃ kind ∈ constraintKinds,kind ∈ readKinds args
  | .roleWithAttribute => readWantedAttributes args ≠ []

end Matchers

section Requirements
variable {args : TomlTable}

theorem list_given {key : String} :
    (∃ value values,stringValues args key .list = some (value :: values)) ↔ readStringList args key ≠ [] := by
  unfold readStringList
  cases stringValues args key .list with
  | none => exact iff_of_false (fun given => by obtain ⟨_,_,is⟩ := given; cases is) fun given => given rfl
  | some values =>
    cases values with
    | nil => exact iff_of_false (fun given => by obtain ⟨_,_,is⟩ := given; cases is) fun given => given rfl
    | cons value values => exact iff_of_true ⟨value,values,rfl⟩ (List.cons_ne_nil _ _)

theorem listed_allowed {key : String} {allowed : List String} :
    Satisfied args (.anyKeyIntersects [(key,.list)] allowed true) ↔ ∃ kind ∈ allowed,kind ∈ readStringList args key := by
  unfold readStringList Satisfied
  constructor
  · rintro ⟨shaped,member,values,is,value,inside,fits⟩
    cases List.mem_singleton.mp member
    rw [is]
    exact ⟨asciiLowercase value,List.contains_iff_mem.mp fits,List.mem_map.mpr ⟨value,inside,rfl⟩⟩
  · rintro ⟨kind,fits,inside⟩
    obtain ⟨value,there,rfl⟩ := List.mem_map.mp inside
    cases is : stringValues args key .list with
    | none =>
      rw [is] at there
      exact absurd there List.not_mem_nil
    | some values =>
      rw [is] at there
      exact ⟨(key,.list),List.mem_singleton.mpr rfl,values,is,value,there,List.contains_iff_mem.mpr fits⟩

theorem scalar_allowed {key word : String} (written : word ≠ "") :
    Satisfied args (.anyKeyIntersects [(key,.scalar)] [word] false) ↔ readText args key = word := by
  unfold readText Satisfied
  constructor
  · rintro ⟨shaped,member,values,is,value,inside,fits⟩
    cases List.mem_singleton.mp member
    obtain ⟨text,found,rfl⟩ := Option.map_eq_some_iff.mp is
    cases List.mem_singleton.mp inside
    rw [found]
    exact List.mem_singleton.mp (List.contains_iff_mem.mp fits)
  · intro reads
    cases found : (args.lookup key).bind TomlValue.asStr with
    | none =>
      rw [found] at reads
      exact absurd reads.symm written
    | some text =>
      rw [found] at reads
      refine ⟨(key,.scalar),List.mem_singleton.mpr rfl,[text],congrArg (Option.map fun text => [text]) found,text,
        List.mem_singleton.mpr rfl,List.contains_iff_mem.mpr ?_⟩
      exact List.mem_singleton.mpr reads

theorem normalizeAttribute_ne {value : String} :
    normalizeAttribute value ≠ none ↔ Allowed recognizedAttributes true value = true := by
  unfold normalizeAttribute Allowed
  rw [if_pos rfl]
  split
  · exact iff_of_true (Option.some_ne_none _) ‹_›
  · exact iff_of_false (fun known => known rfl) ‹_›

theorem listed_attributes : ((stringValues args "attributes" .list).getD []).filterMap normalizeAttribute ≠ [] ↔
    ∃ values,stringValues args "attributes" .list = some values ∧
      ∃ value ∈ values,Allowed recognizedAttributes true value = true := by
  cases stringValues args "attributes" .list with
  | none =>
    refine iff_of_false (fun given => given rfl) fun given => ?_
    obtain ⟨_,is,-⟩ := given
    cases is
  | some values =>
    have among : values.filterMap normalizeAttribute ≠ [] ↔
        ∃ value ∈ values,Allowed recognizedAttributes true value = true := by
      rw [ne_eq,List.filterMap_eq_nil_iff]
      push Not
      exact exists_congr fun value => and_congr_right fun _ => normalizeAttribute_ne
    refine among.trans ⟨fun found => ⟨values,rfl,found⟩,fun given => ?_⟩
    obtain ⟨_,is,found⟩ := given
    cases is
    exact found

theorem single_attribute : (((args.lookup "attribute").bind TomlValue.asStr).bind normalizeAttribute).toList ≠ [] ↔
    ∃ values,stringValues args "attribute" .scalar = some values ∧
      ∃ value ∈ values,Allowed recognizedAttributes true value = true := by
  unfold stringValues
  cases (args.lookup "attribute").bind TomlValue.asStr with
  | none =>
    refine iff_of_false (fun given => given rfl) fun given => ?_
    obtain ⟨_,is,-⟩ := given
    cases is
  | some text =>
    have known : (normalizeAttribute text).toList ≠ [] ↔ Allowed recognizedAttributes true text = true := by
      rw [← normalizeAttribute_ne]
      exact not_congr Option.toList_eq_nil_iff
    refine known.trans ⟨fun fits => ⟨[text],rfl,text,List.mem_singleton.mpr rfl,fits⟩,fun given => ?_⟩
    obtain ⟨_,is,value,member,fits⟩ := given
    cases is
    cases List.mem_singleton.mp member
    exact fits

theorem attributes_wanted : Satisfied args Matcher.roleWithAttribute.requirement ↔ readWantedAttributes args ≠ [] := by
  unfold Satisfied Matcher.requirement readWantedAttributes
  dsimp only
  simp only [List.mem_cons,List.not_mem_nil,or_false,exists_eq_or_imp,exists_eq_left]
  rw [← listed_attributes,← single_attribute]
  split
  · rename_i empty
    exact or_iff_right fun some => some (List.isEmpty_iff.mp empty)
  · rename_i some
    have listed := fun none => some (List.isEmpty_iff.mpr none)
    exact iff_of_true (.inl listed) listed

-- Nine matchers read what the check reads.
theorem satisfied_iff {m : Matcher} (other : m ≠ .addConstraintWithoutUsingIndex) :
    Satisfied args m.requirement ↔ Driven args m := by
  have one {key : String} : Satisfied args (.allNonEmptyLists [key]) ↔ readStringList args key ≠ [] :=
    List.forall_mem_singleton.trans list_given
  cases m with
  | functionNameInSet => exact one
  | weakHashOverSensitiveColumn =>
    refine List.forall_mem_cons.trans (and_congr list_given ?_)
    exact List.forall_mem_singleton.trans list_given
  | selectStarOverPiiColumns => exact one
  | columnTypeDisallowed => exact one
  | granteeIncludes => exact scalar_allowed (by decide)
  | grantKind => exact scalar_allowed (by decide)
  | dropStatement => exact listed_allowed
  | sessionMutation => exact listed_allowed
  | addConstraintWithoutUsingIndex => exact absurd rfl other
  | roleWithAttribute => exact attributes_wanted

end Requirements

end Scythe.MatcherArgs
