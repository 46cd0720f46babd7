import Scythe.Catalog

-- The arguments of the audit's rules, and what each matcher needs of them.
namespace Scythe.MatcherArgs
open Text

-- A value of a rule's table. Numbers, booleans, dates and tables are as their text.
inductive TomlValue where
  | string (text : String)
  | array (items : List TomlValue)
  | other (text : String)

def TomlValue.asStr : TomlValue → Option String
  | .string text => some text
  | _ => none

def TomlValue.asArray : TomlValue → Option (List TomlValue)
  | .array items => some items
  | _ => none

abbrev TomlTable := AHashMap TomlValue

-- The library of the format prints its own values.
class TomlPrinter where
  value : TomlValue → String

inductive Shape where
  | list
  | scalar
  deriving DecidableEq,Repr

def Shape.describe : Shape → String
  | .list => "an array of strings"
  | .scalar => "a string"

inductive Requirement where
  | allNonEmptyLists (keys : List String)
  | anyKeyIntersects (keys : List (String × Shape)) (allowed : List String) (caseInsensitive : Bool)
  deriving DecidableEq,Repr

structure MatcherArgsError where
  matcher : String
  reason : String
  deriving DecidableEq,Repr

def recognizedAttributes : List String := ["superuser","createdb","createrole","replication","bypassrls"]

def requirements : List (String × Requirement) :=
  [("function_name_in_set",.allNonEmptyLists ["functions"]),
   ("weak_hash_over_sensitive_column",.allNonEmptyLists ["functions","column_patterns"]),
   ("select_star_over_pii_columns",.allNonEmptyLists ["column_patterns"]),
   ("column_type_disallowed",.allNonEmptyLists ["disallowed"]),
   ("grantee_includes",.anyKeyIntersects [("grantee",.scalar)] ["public"] false),
   ("grant_kind",.anyKeyIntersects [("kind",.scalar)] ["all"] false),
   ("drop_statement",.anyKeyIntersects [("kinds",.list)] ["table","database","schema","column"] true),
   ("session_mutation",
     .anyKeyIntersects [("kinds",.list)] ["set_role","set_session_authorization","reset_role"] true),
   ("add_constraint_without_using_index",.anyKeyIntersects [("kinds",.list)] ["unique","primary_key"] true),
   ("role_with_attribute",
     .anyKeyIntersects [("attributes",.list),("attribute",.scalar)] recognizedAttributes true)]

-- What is of another shape reads as nothing, and so do the entries that are no text.
def stringValues (args : TomlTable) (key : String) : Shape → Option (List String)
  | .scalar => ((args.lookup key).bind TomlValue.asStr).map fun text => [text]
  | .list => ((args.lookup key).bind TomlValue.asArray).map fun items => items.filterMap TomlValue.asStr

section
variable [TomlPrinter]

def describe (args : TomlTable) (key : String) : String :=
  match args.lookup key with
  | none => "absent"
  | some (.array []) => "an empty array"
  | some value => TomlPrinter.value value

def checkLists (matcher : String) (args : TomlTable) : List String → Except MatcherArgsError Unit
  | [] => .ok ()
  | key :: keys =>
    match stringValues args key .list with
    | none => .error ⟨matcher,s!"'{key}' is required and must be {Shape.list.describe} (it is {describe args key})"⟩
    | some [] => .error ⟨matcher,s!"'{key}' is empty, so the matcher has nothing to look for"⟩
    | some (_ :: _) => checkLists matcher args keys

def Allowed (allowed : List String) (caseInsensitive : Bool) (value : String) : Bool :=
  if caseInsensitive then allowed.contains (asciiLowercase value) else allowed.contains value

def anyUsable (args : TomlTable) (keys : List (String × Shape)) (allowed : List String) (caseInsensitive : Bool) : Bool :=
  (keys.filterMap fun key => stringValues args key.1 key.2).any fun values => values.any (Allowed allowed caseInsensitive)

def noneUsable (args : TomlTable) (keys : List (String × Shape)) (allowed : List String) : String :=
  let keyList := join " or " (keys.map fun key => s!"'{key.1}' ({key.2.describe})")
  let allowedList := join ", " (allowed.map fun value => "\"" ++ value ++ "\"")
  let found := join ", " (keys.map fun key => s!"{key.1} = {describe args key.1}")
  s!"{keyList} must name at least one of [{allowedList}] (found {found})"

def checkRequirement (matcher : String) (args : TomlTable) : Requirement → Except MatcherArgsError Unit
  | .allNonEmptyLists keys => checkLists matcher args keys
  | .anyKeyIntersects keys allowed caseInsensitive =>
    if anyUsable args keys allowed caseInsensitive then .ok () else .error ⟨matcher,noneUsable args keys allowed⟩

-- A matcher without a requirement takes any arguments.
def validateMatcherArgs (matcher : String) (args : TomlTable) : Except MatcherArgsError Unit :=
  match requirements.find? fun entry => entry.1 = matcher with
  | none => .ok ()
  | some entry => checkRequirement matcher args entry.2

end

def Satisfied (args : TomlTable) : Requirement → Prop
  | .allNonEmptyLists keys => ∀ key ∈ keys,∃ value values,stringValues args key .list = some (value :: values)
  | .anyKeyIntersects keys allowed caseInsensitive => ∃ key ∈ keys,∃ values,stringValues args key.1 key.2 = some values ∧
      ∃ value ∈ values,Allowed allowed caseInsensitive value

theorem anyUsable_iff (args : TomlTable) (keys : List (String × Shape)) (allowed : List String) (caseInsensitive : Bool) :
    anyUsable args keys allowed caseInsensitive = true ↔ Satisfied args (.anyKeyIntersects keys allowed caseInsensitive) := by
  unfold anyUsable
  rw [List.any_eq_true]
  constructor
  · rintro ⟨values,listed,usable⟩
    obtain ⟨key,member,is⟩ := List.mem_filterMap.mp listed
    exact ⟨key,member,values,is,List.any_eq_true.mp usable⟩
  · rintro ⟨key,member,values,is,usable⟩
    exact ⟨values,List.mem_filterMap.mpr ⟨key,member,is⟩,List.any_eq_true.mpr usable⟩

section
variable [TomlPrinter]

theorem checkLists_ok (matcher : String) (args : TomlTable) (keys : List String) :
    checkLists matcher args keys = .ok () ↔ Satisfied args (.allNonEmptyLists keys) := by
  induction keys with
  | nil => exact ⟨fun _ key absent => absurd absent List.not_mem_nil,fun _ => rfl⟩
  | cons key keys ih =>
    rw [Satisfied,List.forall_mem_cons,checkLists]
    cases is : stringValues args key .list with
    | none =>
      refine iff_of_false (fun accepted => ?_) fun both => ?_
      · cases accepted
      · obtain ⟨value,values,there⟩ := both.1
        cases there
    | some found =>
      cases found with
      | nil =>
        refine iff_of_false (fun accepted => ?_) fun both => ?_
        · cases accepted
        · obtain ⟨value,values,there⟩ := both.1
          cases there
      | cons value values => exact ih.trans (and_iff_right ⟨value,values,rfl⟩).symm

theorem checkRequirement_ok (matcher : String) (args : TomlTable) (requirement : Requirement) :
    checkRequirement matcher args requirement = .ok () ↔ Satisfied args requirement := by
  cases requirement with
  | allNonEmptyLists keys => exact checkLists_ok matcher args keys
  | anyKeyIntersects keys allowed caseInsensitive =>
    rw [← anyUsable_iff,checkRequirement]
    split
    · exact iff_of_true rfl ‹_›
    · refine iff_of_false (fun accepted => ?_) ‹_›
      cases accepted

end

end Scythe.MatcherArgs
