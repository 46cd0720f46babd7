import Scythe.CheckSpecs

-- What the validation of a check promises of the rows of its run.
namespace Scythe.CheckSpecs
open Text Migrate

section Rows
variable (row : List ResultColumn) (name : String)

theorem bindColumn_values (bindings : RowBindings) (col : ResultColumn) :
    (bindColumn row bindings col).values.lookup name =
      if col.name = name ∧ (tryGet row name).isSome then tryGet row name else bindings.values.lookup name := by
  unfold bindColumn
  by_cases same : col.name = name
  · subst same
    cases tryGet row col.name with
    | none => simp
    | some v => simp [AList.lookup_insert]
  · rw [if_neg fun both => same both.1]
    cases tryGet row col.name with
    | none => rfl
    | some v => exact AList.lookup_insert_ne (Ne.symm same)

theorem bindColumn_unrenderable (bindings : RowBindings) (col : ResultColumn) :
    ((bindColumn row bindings col).unrenderable.lookup name).isSome = true ↔
      (col.name = name ∧ tryGet row name = none) ∨ (bindings.unrenderable.lookup name).isSome = true := by
  unfold bindColumn
  by_cases same : col.name = name
  · subst same
    cases tryGet row col.name with
    | none => simp [AList.lookup_insert]
    | some v => simp
  · cases tryGet row col.name with
    | none => simp [AList.lookup_insert_ne (Ne.symm same),same]
    | some v => simp [same]

theorem bound_values (cols : List ResultColumn) (bindings : RowBindings) :
    (cols.foldl (bindColumn row) bindings).values.lookup name =
      if name ∈ cols.map (·.name) ∧ (tryGet row name).isSome then tryGet row name else bindings.values.lookup name := by
  induction cols generalizing bindings with
  | nil => simp
  | cons col cols ih =>
    rw [List.foldl_cons,ih,bindColumn_values]
    by_cases decoded : (tryGet row name).isSome = true
    · by_cases same : col.name = name
      · simp [decoded,same]
      · simp [decoded,same,Ne.symm same]
    · simp [decoded]

theorem bound_unrenderable (cols : List ResultColumn) (bindings : RowBindings) :
    ((cols.foldl (bindColumn row) bindings).unrenderable.lookup name).isSome = true ↔
      (name ∈ cols.map (·.name) ∧ tryGet row name = none) ∨ (bindings.unrenderable.lookup name).isSome = true := by
  induction cols generalizing bindings with
  | nil => simp
  | cons col cols ih =>
    rw [List.foldl_cons,ih,bindColumn_unrenderable,List.map_cons,List.mem_cons]
    by_cases same : col.name = name
    · simp [same]
      tauto
    · simp [same,Ne.symm same]

theorem tryGet_named {v : String} (found : tryGet row name = some v) : name ∈ row.map (·.name) := by
  obtain ⟨col,first,_⟩ := Option.bind_eq_some_iff.mp found
  have named := List.find?_some first
  exact List.mem_map.mpr ⟨col,List.mem_of_find?_eq_some first,of_decide_eq_true named⟩

-- What is bound to a name is what the first column of the name decodes to.
theorem row_value : (rowToMap row).values.lookup name = tryGet row name := by
  unfold rowToMap
  rw [bound_values]
  cases found : tryGet row name with
  | none => simp
  | some v => simp [tryGet_named row name found]

-- A name is bound to something where the row has a column of it.
theorem row_bound : (((rowToMap row).values.lookup name).isSome = true ∨
    ((rowToMap row).unrenderable.lookup name).isSome = true) ↔ name ∈ row.map (·.name) := by
  rw [row_value]
  unfold rowToMap
  rw [bound_unrenderable]
  cases found : tryGet row name with
  | none => simp
  | some v => simp [tryGet_named row name found]

end Rows

section Messages

def bound (bindings : RowBindings) (name : String) : Prop :=
  (bindings.values.lookup name).isSome = true ∨ (bindings.unrenderable.lookup name).isSome = true

def isMissing : InspectError → Bool
  | .messageBindingMissing _ _ => true
  | .unrenderableBinding _ _ _ _ => false

-- Where every name is bound, a message can only fail for a column that cannot be decoded.
theorem pieces_bound {bindings : RowBindings} {checkId : String} {found : List Piece}
    (all : ∀ name ∈ found.filterMap Piece.name,bound bindings name) {error : InspectError}
    (failed : renderPieces bindings checkId found = .error error) : isMissing error = false := by
  induction found with
  | nil => cases failed
  | cons piece found ih =>
    cases piece with
    | text c =>
      rw [renderPieces] at failed
      cases rest : renderPieces bindings checkId found with
      | ok text =>
        rw [rest] at failed
        cases failed
      | error later =>
        rw [rest] at failed
        cases failed
        exact ih all rest
    | binding name =>
      have both : ∀ n ∈ String.ofList name :: found.filterMap Piece.name,bound bindings n := all
      rw [List.forall_mem_cons] at both
      rw [renderPieces] at failed
      cases value : bindings.values.lookup (String.ofList name) with
      | some value' =>
        simp only [value] at failed
        cases rest : renderPieces bindings checkId found with
        | ok text =>
          rw [rest] at failed
          cases failed
        | error later =>
          rw [rest] at failed
          cases failed
          exact ih both.2 rest
      | none =>
        simp only [value] at failed
        cases typed : bindings.unrenderable.lookup (String.ofList name) with
        | some typeName =>
          simp only [typed] at failed
          cases failed
          rfl
        | none =>
          rcases both.1 with held | held
          · rw [value] at held
            cases held
          · rw [typed] at held
            cases held

variable [WordClasses]

theorem message_bound {template checkId : String} {bindings : RowBindings}
    (all : ∀ name ∈ extractMessagePlaceholders template,bound bindings name) {error : InspectError}
    (failed : renderMessage template bindings checkId = .error error) : isMissing error = false := by
  unfold renderMessage at failed
  cases rendered : renderPieces bindings checkId (pieces 0 template.toList) with
  | ok text =>
    rw [rendered] at failed
    cases failed
  | error reason =>
    rw [rendered] at failed
    cases failed
    exact pieces_bound all rendered

end Messages

section Suppression

-- The last check of an id is the one whose columns the engine goes by.
def entryOf (registry : List CheckSpec) (id : String) : Option CheckSpec := registry.reverse.find? fun spec => spec.id = id

theorem bound_entry (registry : List CheckSpec) (id : String) (rules : List SuppressionRule) :
    ((SuppressionEngine.new rules).bindToRegistry registry).bindings.lookup id =
      (entryOf registry id).map fun spec => ⟨spec.schemaBinding,spec.objectBinding⟩ := by
  unfold SuppressionEngine.bindToRegistry entryOf
  dsimp only
  induction registry using List.reverseRecOn with
  | nil => rfl
  | append_singleton registry spec ih =>
    rw [List.foldl_append,List.foldl_cons,List.foldl_nil,List.reverse_append,List.reverse_singleton,
      List.singleton_append,List.find?_cons]
    by_cases same : spec.id = id
    · rw [decide_eq_true same,same,AList.lookup_insert]
      rfl
    · rw [decide_eq_false same,AList.lookup_insert_ne (Ne.symm same),ih]

theorem entryOf_some {registry : List CheckSpec} {spec : CheckSpec} (registered : spec ∈ registry) :
    ∃ entry,entryOf registry spec.id = some entry := by
  have found : (registry.reverse.find? fun other => other.id = spec.id).isSome = true :=
    List.find?_isSome.mpr ⟨spec,List.mem_reverse.mpr registered,decide_eq_true rfl⟩
  exact Option.isSome_iff_exists.mp found

theorem suppressed_iff {registry : List CheckSpec} {finding : Finding} {entry : CheckSpec}
    (is : entryOf registry finding.ruleId = some entry) (rules : List SuppressionRule) (bindings : AHashMap String) :
    ((SuppressionEngine.new rules).bindToRegistry registry).isSuppressed finding bindings = true ↔
      ∃ rule ∈ rules,rule.rule = finding.ruleId ∧
        expects rule.schema (schemaValue entry.schemaBinding bindings) = true ∧
          expects rule.object (objectValue entry.objectBinding bindings) = true := by
  unfold SuppressionEngine.isSuppressed
  rw [bound_entry,is]
  change (rules.any _) = true ↔ _
  rw [List.any_eq_true]
  simp only [Option.map_some,Option.bind_some,Bool.and_eq_true,decide_eq_true_eq]

end Suppression

section Coverage
variable [WordClasses] [SqlParser]

-- A check that the validation takes, with a projection that it can tell.
structure AcceptedCheck (registry : List CheckSpec) where
  spec : CheckSpec
  registered : spec ∈ registry
  select : Select
  parsed : sqlSelect spec = .ok (some select)
  projection : List String
  known : selectProjection select = some projection
  messageBindings : validateMessageBindings spec = .ok ()
  requireObjectBinding : Bool
  suppressionBindings : validateSuppressionBindings spec requireObjectBinding = .ok ()

variable {registry : List CheckSpec} {naming : Expr → String}

-- The names that the check needs of a row.
def AcceptedCheck.needed (check : AcceptedCheck registry) : List String :=
  extractMessagePlaceholders check.spec.message ++ (declaredBindings check.spec).map (·.2)

-- A rule may leave a column open, or name the value that the row has in it.
def NamesValue (column : Option String) (bindings : AHashMap String) (expected : Option String) : Prop :=
  ∀ value,expected = some value → column.bind bindings.lookup = some value

structure Covers (check : AcceptedCheck registry) (row : ResultRow naming check.select) : Prop where
  keys : ∀ name ∈ check.needed,bound (rowToMap row.columns) name
  renders : ∀ error,renderMessage check.spec.message (rowToMap row.columns) check.spec.id = .error error →
    isMissing error = false
  suppresses : ∀ (finding : Finding) (rules : List SuppressionRule),finding.ruleId = check.spec.id → ∀ rule ∈ rules,
    rule.rule = check.spec.id → NamesValue check.spec.schemaBinding (rowToMap row.columns).values rule.schema →
      NamesValue check.spec.objectBinding (rowToMap row.columns).values rule.object →
        ((SuppressionEngine.new rules).bindToRegistry registry).isSuppressed finding (rowToMap row.columns).values = true

-- The server reports a column under the very name.
def Reported (naming : Expr → String) (select : Select) (name : String) : Prop :=
  ∃ item ∈ select.projection,reportedName naming item = some name

-- What the last check of the id declares has the value that this one's columns have.
structure SameColumns (registry : List CheckSpec) (spec : CheckSpec) (bindings : AHashMap String) : Prop where
  schema : ∀ entry value,entryOf registry spec.id = some entry → spec.schemaBinding.bind bindings.lookup = some value →
    schemaValue entry.schemaBinding bindings = some value
  object : ∀ entry value,entryOf registry spec.id = some entry → spec.objectBinding.bind bindings.lookup = some value →
    objectValue entry.objectBinding bindings = some value

omit [WordClasses] [SqlParser] in
theorem bound_reported {select : Select} (row : ResultRow naming select) (name : String) :
    bound (rowToMap row.columns) name ↔ Reported naming select name := by
  unfold bound
  rw [row_bound,row.named,List.mem_filterMap]
  rfl

omit [WordClasses] [SqlParser] in
theorem expects_some {expected found : Option String} (same : ∀ value,expected = some value → found = some value) :
    expects expected found = true := by
  cases expected with
  | none => rfl
  | some value => exact decide_eq_true (same value rfl)

theorem covers_reported {check : AcceptedCheck registry} {row : ResultRow naming check.select}
    (reported : ∀ name ∈ check.needed,Reported naming check.select name)
    (same : SameColumns registry check.spec (rowToMap row.columns).values) : Covers check row where
  keys name member := (bound_reported row name).mpr (reported name member)
  renders error failed :=
    message_bound (fun name member => (bound_reported row name).mpr (reported name (List.mem_append_left _ member))) failed
  suppresses finding rules about rule member named schema object := by
    obtain ⟨entry,is⟩ := entryOf_some check.registered
    refine (suppressed_iff (about.symm ▸ is) rules _).mpr ⟨rule,member,named.trans about.symm,?_,?_⟩
    · exact expects_some fun value given => same.schema entry value is (schema value given)
    · exact expects_some fun value given => same.object entry value is (object value given)

theorem covered_reported {check : AcceptedCheck registry} {row : ResultRow naming check.select} (covers : Covers check row) :
    (∀ name ∈ check.needed,Reported naming check.select name) ∧
      SameColumns registry check.spec (rowToMap row.columns).values := by
  have leftOpen (column : Option String) : NamesValue column (rowToMap row.columns).values none := fun _ none => nomatch none
  have named {column : Option String} {value : String} (held : column.bind (rowToMap row.columns).values.lookup = some value) :
      NamesValue column (rowToMap row.columns).values (some value) := by
    intro _ same
    cases same
    exact held
  refine ⟨fun name member => (bound_reported row name).mp (covers.keys name member),⟨?_,?_⟩⟩
  · intro entry value is held
    have matched := covers.suppresses ⟨check.spec.id,"","",""⟩ [⟨check.spec.id,some value,none⟩] rfl _
      (List.mem_singleton.mpr rfl) rfl (named held) (leftOpen _)
    obtain ⟨rule,member,-,schema,-⟩ := (suppressed_iff is _ _).mp matched
    cases List.mem_singleton.mp member
    exact of_decide_eq_true schema
  · intro entry value is held
    have matched := covers.suppresses ⟨check.spec.id,"","",""⟩ [⟨check.spec.id,none,some value⟩] rfl _
      (List.mem_singleton.mpr rfl) rfl (leftOpen _) (named held)
    obtain ⟨rule,member,-,-,object⟩ := (suppressed_iff is _ _).mp matched
    cases List.mem_singleton.mp member
    exact of_decide_eq_true object

-- An accepted check is covered just where each name it needs is the very name of a column,
-- and the check that the engine goes by has the same columns.
theorem validated_covers_iff (check : AcceptedCheck registry) (row : ResultRow naming check.select) :
    Covers check row ↔ (∀ name ∈ check.needed,Reported naming check.select name) ∧
      SameColumns registry check.spec (rowToMap row.columns).values :=
  ⟨covered_reported,fun both => covers_reported both.1 both.2⟩

-- A run over rows that are all covered can only fail for a column that cannot be decoded.
theorem run_covered {check : AcceptedCheck registry} {rows : List (ResultRow naming check.select)}
    (covered : ∀ row ∈ rows,Covers check row) {error : InspectError}
    (failed : runCheckWithBindings check.spec (rows.map (·.columns)) = .error error) : isMissing error = false := by
  unfold runCheckWithBindings at failed
  induction rows with
  | nil => cases failed
  | cons row rows ih =>
    rw [List.forall_mem_cons] at covered
    rw [List.map_cons,List.mapM_cons] at failed
    cases first : findingOf check.spec row.columns with
    | error reason =>
      rw [first] at failed
      cases failed
      unfold findingOf at first
      cases rendered : renderMessage check.spec.message (rowToMap row.columns) check.spec.id with
      | ok message =>
        rw [rendered] at first
        cases first
      | error missing =>
        rw [rendered] at first
        cases first
        exact covered.1.renders _ rendered
    | ok found =>
      rw [first] at failed
      cases rest : (rows.map (·.columns)).mapM (findingOf check.spec) with
      | ok others =>
        simp only [bind,Except.bind,rest] at failed
        cases failed
      | error reason =>
        simp only [bind,Except.bind,rest] at failed
        cases failed
        exact ih covered.2 rest

-- What the validation does say: up to the letter case, a projected item has each name.
theorem accepted_projected (check : AcceptedCheck registry) {name : String} (needed : name ∈ check.needed) :
    ∃ item ∈ check.select.projection,itemName item = asciiLowercase name ∧ itemName item ≠ "" := by
  have projected : sqlProjection check.spec = .ok (some check.projection) := by
    rw [sqlProjection,check.parsed]
    exact congrArg Except.ok check.known
  have listed : check.projection.contains (asciiLowercase name) = true := by
    rcases List.mem_append.mp needed with message | declared
    · have accepted := check.messageBindings
      unfold validateMessageBindings at accepted
      rw [projected] at accepted
      dsimp only at accepted
      split at accepted
      · cases accepted
      · rename_i none
        have fine := List.find?_eq_none.mp none name message
        rwa [Bool.not_eq_true,Bool.not_eq_false'] at fine
    · obtain ⟨binding,member,rfl⟩ := List.mem_map.mp declared
      have accepted := check.suppressionBindings
      unfold validateSuppressionBindings at accepted
      rw [projected] at accepted
      dsimp only at accepted
      split at accepted
      · cases accepted
      · split at accepted
        · rename_i undeclared
          have nothing : declaredBindings check.spec = [] := by
            obtain ⟨object,schema⟩ := Bool.and_eq_true_iff.mp undeclared
            rw [declaredBindings,Option.isNone_iff_eq_none.mp object,Option.isNone_iff_eq_none.mp schema]
            rfl
          rw [nothing] at member
          cases member
        · split at accepted
          · cases accepted
          · rename_i none
            have fine := List.find?_eq_none.mp none binding member
            rwa [Bool.not_eq_true,Bool.not_eq_false'] at fine
  have known := check.known
  unfold selectProjection at known
  split at known
  · cases known
  · rw [← Option.some.inj known] at listed
    obtain ⟨member,nonempty⟩ := List.mem_filter.mp (List.contains_iff_mem.mp listed)
    obtain ⟨item,there,is⟩ := List.mem_map.mp member
    exact ⟨item,there,is,is ▸ of_decide_eq_true nonempty⟩

-- So it is enough that the names are lower case and the items are reported under theirs.
theorem lowercase_reported (check : AcceptedCheck registry) {name : String} (needed : name ∈ check.needed)
    (lower : asciiLowercase name = name)
    (plain : ∀ item ∈ check.select.projection,itemName item ≠ "" → reportedName naming item = some (itemName item)) :
    Reported naming check.select name := by
  obtain ⟨item,there,is,nonempty⟩ := accepted_projected check needed
  refine ⟨item,there,?_⟩
  rw [plain item there nonempty,is,lower]

end Coverage

section Uppercase

local instance checkWords : WordClasses := ⟨isAsciiWord,isDigit⟩

def relnameAliased : Select :=
  ⟨[.exprWithAlias (.identifier ⟨"relname",false⟩) ⟨"table_name",false⟩],
    [⟨.table [.identifier ⟨"pg_class",false⟩] none none [],[]⟩],none,.expressions [],none,[]⟩

local instance checkParser : SqlParser := ⟨fun _ _ => .ok [.query ⟨none,.select relnameAliased,[],none,[]⟩]⟩

def uppercaseCheck : CheckSpec where
  id := "USER-INS-001"
  name := "tables"
  engines := ["postgres"]
  description := "every table"
  message := "table \x7bTable_Name\x7d"
  sql := "SELECT relname AS table_name FROM pg_class"
  objectBinding := none
  schemaBinding := none

def uppercaseAccepted : AcceptedCheck [uppercaseCheck] where
  spec := uppercaseCheck
  registered := List.mem_singleton.mpr rfl
  select := relnameAliased
  parsed := rfl
  projection := ["table_name"]
  known := by decide
  messageBindings := by decide
  requireObjectBinding := false
  suppressionBindings := by decide

def usersRow : ResultRow (fun _ => "?column?") relnameAliased where
  columns := [⟨"table_name","name",some "users"⟩]
  named := by decide

-- The placeholder is accepted for a column that the server reports in lower case.
theorem uppercase_uncovered : ¬Covers uppercaseAccepted usersRow := by
  intro covers
  have needed : "Table_Name" ∈ uppercaseAccepted.needed := by decide
  have listed := (row_bound usersRow.columns "Table_Name").mp (covers.keys _ needed)
  exact absurd listed (by decide)

end Uppercase

end Scythe.CheckSpecs
