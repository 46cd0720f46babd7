import Scythe.LiveSchema
import Scythe.Verification

-- The comparison of the two descriptions, and what a comparison without findings
-- says of the catalog and of the server's rows.
namespace Scythe.Drift
open Text Aliases Verification

structure Finding where
  file : String
  ruleId : String
  ruleName : String
  ruleDescription : String
  severity : Severity
  message : String
  source : String
  deriving DecidableEq,Repr

def driftRuleIds : List String := ["SC-DRF01","SC-DRF02","SC-DRF03","SC-DRF04","SC-DRF05","SC-DRF06","SC-DRF07",
  "SC-DRF08","SC-DRF09","SC-DRF10","SC-DRF11","SC-DRF12","SC-DRF13"]

structure DriftSeverities where
  byRule : List (String × Severity)

def DriftSeverities.severityFor (severities : DriftSeverities) (ruleId : String) : Severity :=
  (severities.byRule.lookup ruleId).getD .off

-- Where the findings go.
structure FindingSink where
  severities : DriftSeverities
  label : String

def FindingSink.isEnabled (sink : FindingSink) (ruleId : String) : Bool := sink.severities.severityFor ruleId ≠ .off

def FindingSink.push (sink : FindingSink) (ruleId ruleName message : String) : List Finding :=
  match sink.severities.severityFor ruleId with
  | .off => []
  | severity => [⟨sink.label,ruleId,ruleName,"committed DDL does not match the live database schema",severity,message,
      "drift"⟩]

def typesMatchForDrift (ddlType liveType : String) : Bool := ddlType = liveType

def difference (left right : List String) : List String := left.filter fun value => !right.contains value

def quotedList (values : List String) : String := join ", " (values.map fun value => s!"`{value}`")

section
variable (sink : FindingSink)

def diffColumnType (ddlTable : TableDescription) (ddlColumn liveColumn : ColumnDescription) : List Finding :=
  match ddlColumn.neutralType,liveColumn.neutralType with
  | some ddlType,some liveType =>
    if typesMatchForDrift ddlType liveType then [] else
    sink.push "SC-DRF05" "column-type-mismatch"
      (s!"column `{ddlTable.displayName}.{ddlColumn.name}` is declared as `{ddlType}` in the schema but the " ++
        s!"database reports `{liveType}`")
  | _,_ => []

def diffColumnNullability (ddlTable liveTable : TableDescription) (ddlColumn liveColumn : ColumnDescription) :
    List Finding :=
  if !ddlTable.nullabilityIsAuthoritative || !liveTable.nullabilityIsAuthoritative then [] else
  if ddlColumn.nullable = liveColumn.nullable then [] else
  sink.push "SC-DRF06" "column-nullability-mismatch"
    (if liveColumn.nullable then
      s!"column `{ddlTable.displayName}.{ddlColumn.name}` is declared NOT NULL in the schema but is nullable in the " ++
        "database — generated code treats it as always present and will fail to decode a NULL row"
    else
      s!"column `{ddlTable.displayName}.{ddlColumn.name}` is declared nullable in the schema but is NOT NULL in the " ++
        "database — generated code wraps it in an optional it can never be")

def diffColumns (ddlTable liveTable : TableDescription) : List Finding :=
  ddlTable.columns.toList.flatMap (fun entry =>
    match liveTable.columns[entry.1]? with
    | none => sink.push "SC-DRF03" "column-missing-from-database"
        (s!"column `{ddlTable.displayName}.{entry.2.name}` is declared in the schema but does not exist in the " ++
          "database")
    | some liveColumn =>
      diffColumnType sink ddlTable entry.2 liveColumn ++
        diffColumnNullability sink ddlTable liveTable entry.2 liveColumn) ++
  liveTable.columns.toList.flatMap fun entry =>
    if ddlTable.columns.contains entry.1 then [] else
    sink.push "SC-DRF04" "column-missing-from-ddl"
      (s!"column `{liveTable.displayName}.{entry.2.name}` exists in the database but is not declared in the " ++
        "schema")

-- The bare name under which a live object stands a second time.
def isBareAlias (key displayName : String) (entries : List (String × String)) : Bool :=
  !contains key "." && entries.any fun other => contains other.1 "." && other.2 = displayName

section
variable [CaseMap]

def diffTables (ddl live : SchemaDescription) : List Finding :=
  ddl.tables.toList.flatMap (fun entry =>
    match live.tables[entry.1]? with
    | some liveTable => diffColumns sink entry.2 liveTable
    | none => sink.push "SC-DRF01" "table-missing-from-database"
        s!"table `{entry.2.displayName}` is declared in the schema but does not exist in the database") ++
  if !sink.isEnabled "SC-DRF02" then [] else
  live.tables.toList.flatMap fun entry =>
    if isBareAlias entry.1 entry.2.displayName (live.tables.toList.map fun other => (other.1,other.2.displayName)) then []
    else
      let bareKey := objectKey entry.2.displayName
      let bareDeclarationMatchesWinner := ddl.tables.contains bareKey &&
        live.tables[bareKey]?.any fun winner => winner.displayName = entry.2.displayName
      if ddl.tables.contains entry.1 || bareDeclarationMatchesWinner then [] else
      sink.push "SC-DRF02" "table-missing-from-ddl"
        s!"table `{entry.2.displayName}` exists in the database but is not declared in the schema"

end

def diffEnums (ddl live : SchemaDescription) : List Finding :=
  if !sink.isEnabled "SC-DRF07" then [] else
  ddl.enums.toList.flatMap fun entry =>
    match live.enums[entry.1]? with
    | none => []
    | some liveEnum =>
      let missingFromDatabase := difference entry.2.values liveEnum.values
      let missingFromDdl := difference liveEnum.values entry.2.values
      if missingFromDatabase.isEmpty && missingFromDdl.isEmpty then [] else
      let detail :=
        (if missingFromDatabase.isEmpty then [] else [s!"missing from the database: {quotedList missingFromDatabase}"]) ++
          if missingFromDdl.isEmpty then [] else [s!"missing from the schema: {quotedList missingFromDdl}"]
      sink.push "SC-DRF07" "enum-values-mismatch"
        (s!"enum `{entry.2.displayName}` has different values in the schema and the database (" ++ join "; " detail ++ ")")

def diffCompositeFieldType (composite : CompositeDescription) (ddlField liveField : CompositeFieldDescription) :
    List Finding :=
  match ddlField.neutralType,liveField.neutralType with
  | some ddlType,some liveType =>
    if typesMatchForDrift ddlType liveType then [] else
    sink.push "SC-DRF12" "composite-field-type-mismatch"
      (s!"field `{composite.displayName}.{ddlField.name}` is declared as `{ddlType}` in the schema but the " ++
        s!"database reports `{liveType}`")
  | _,_ => []

def diffCompositeFields (ddlComposite liveComposite : CompositeDescription) : List Finding :=
  ddlComposite.fields.toList.flatMap (fun entry =>
    match liveComposite.fields[entry.1]? with
    | none => sink.push "SC-DRF10" "composite-field-missing-from-database"
        (s!"field `{ddlComposite.displayName}.{entry.2.name}` is declared in the schema but does not exist in the " ++
          "database")
    | some liveField =>
      diffCompositeFieldType sink ddlComposite entry.2 liveField ++
        if entry.2.nullable = liveField.nullable then [] else
        sink.push "SC-DRF13" "composite-field-nullability-mismatch"
          (s!"field `{ddlComposite.displayName}.{entry.2.name}` is nullable={entry.2.nullable} in the schema but " ++
            s!"nullable={liveField.nullable} in the database")) ++
  liveComposite.fields.toList.flatMap fun entry =>
    if ddlComposite.fields.contains entry.1 then [] else
    sink.push "SC-DRF11" "composite-field-missing-from-ddl"
      (s!"field `{liveComposite.displayName}.{entry.2.name}` exists in the database but is not declared in the " ++
        "schema")

section
variable [CaseMap]

def diffComposites (ddl live : SchemaDescription) : List Finding :=
  ddl.composites.toList.flatMap (fun entry =>
    match live.composites[entry.1]? with
    | some liveComposite => diffCompositeFields sink entry.2 liveComposite
    | none => sink.push "SC-DRF08" "composite-missing-from-database"
        s!"composite `{entry.2.displayName}` is declared in the schema but does not exist in the database") ++
  live.composites.toList.flatMap fun entry =>
    if isBareAlias entry.1 entry.2.displayName
        (live.composites.toList.map fun other => (other.1,other.2.displayName)) then [] else
    let bareKey := objectKey entry.2.displayName
    let bareDeclarationMatchesWinner := ddl.composites.contains bareKey &&
      live.composites[bareKey]?.any fun winner => winner.displayName = entry.2.displayName
    if !ddl.composites.contains entry.1 && !bareDeclarationMatchesWinner then
      sink.push "SC-DRF09" "composite-missing-from-ddl"
        s!"composite `{entry.2.displayName}` exists in the database but is not declared in the schema"
    else []

def diff (ddl live : SchemaDescription) (severities : DriftSeverities) (label : String) : List Finding :=
  let sink : FindingSink := ⟨severities,label⟩
  diffTables sink ddl live ++ diffEnums sink ddl live ++ diffComposites sink ddl live

end

end

-- No rule is switched off.
def Enabled (severities : DriftSeverities) : Prop := ∀ ruleId ∈ driftRuleIds,severities.severityFor ruleId ≠ .off

section
variable {sink : FindingSink}

theorem isEnabled_iff {ruleId : String} : sink.isEnabled ruleId ↔ sink.severities.severityFor ruleId ≠ .off :=
  decide_eq_true_iff

variable (sink) in
theorem push_ne {ruleId : String} (enabled : sink.severities.severityFor ruleId ≠ .off) (ruleName message : String) :
    sink.push ruleId ruleName message ≠ [] := by
  unfold FindingSink.push
  cases is : sink.severities.severityFor ruleId with
  | off => exact absurd is enabled
  | warn => exact List.cons_ne_nil _ _
  | error => exact List.cons_ne_nil _ _

end

theorem flatMap_nil {δ : Type} {entries : Entries δ} {f : String × δ → List Finding} :
    entries.toList.flatMap f = [] ↔ ∀ (key : String) (value : δ),entries[key]? = some value → f (key,value) = [] := by
  rw [List.flatMap_eq_nil_iff]
  constructor
  · intro all key value held
    exact all _ (Std.TreeMap.mem_toList_iff_getElem?_eq_some.mpr held)
  · intro all item member
    exact all item.1 item.2 (Std.TreeMap.mem_toList_iff_getElem?_eq_some.mp member)

theorem contains_get {δ : Type} {entries : Entries δ} {key : String} :
    entries.contains key = true ↔ ∃ value,entries[key]? = some value := by
  rw [Std.TreeMap.contains_eq_isSome_getElem?,Option.isSome_iff_exists]

-- Both sides have the same keys, and the values of one key agree.
structure Aligned {δ : Type} (Same : δ → δ → Prop) (ddl live : Entries δ) : Prop where
  declared : ∀ (key : String) (value : δ),ddl[key]? = some value → ∃ other,live[key]? = some other ∧ Same value other
  known : ∀ (key : String) (value : δ),live[key]? = some value → ∃ other,ddl[key]? = some other

theorem aligned_nil {δ : Type} {Same : δ → δ → Prop} {ddl live : Entries δ} {missing extra : String × δ → List Finding}
    (paired : ∀ entry,missing entry = [] ↔ ∃ other,live[entry.1]? = some other ∧ Same entry.2 other)
    (expected : ∀ entry,extra entry = [] ↔ ∃ other,ddl[entry.1]? = some other) :
    ddl.toList.flatMap missing ++ live.toList.flatMap extra = [] ↔ Aligned Same ddl live := by
  rw [List.append_eq_nil_iff,flatMap_nil,flatMap_nil]
  constructor
  · intro silent
    constructor
    · intro key value held
      exact (paired _).mp (silent.1 key value held)
    · intro key value held
      exact (expected _).mp (silent.2 key value held)
  · intro aligned
    constructor
    · intro key value held
      exact (paired _).mpr (aligned.declared key value held)
    · intro key value held
      exact (expected _).mpr (aligned.known key value held)

theorem expected_nil {δ : Type} {entries : Entries δ} {key : String} {noise : List Finding} (noisy : noise ≠ []) :
    (if entries.contains key then [] else noise) = [] ↔ ∃ other,entries[key]? = some other := by
  rw [← contains_get]
  by_cases known : entries.contains key = true <;> simp [known,noisy]

def SameType (ddl live : Option String) : Prop := ∀ ddlType liveType,ddl = some ddlType → live = some liveType → ddlType = liveType

structure ColumnAgrees (authoritative : Bool) (ddl live : ColumnDescription) : Prop where
  type : SameType ddl.neutralType live.neutralType
  nullability : authoritative → ddl.nullable = live.nullable

def TableAgrees (ddl live : TableDescription) : Prop :=
  Aligned (ColumnAgrees (ddl.nullabilityIsAuthoritative && live.nullabilityIsAuthoritative)) ddl.columns live.columns

structure FieldAgrees (ddl live : CompositeFieldDescription) : Prop where
  type : SameType ddl.neutralType live.neutralType
  nullability : ddl.nullable = live.nullable

def CompositeAgrees (ddl live : CompositeDescription) : Prop := Aligned FieldAgrees ddl.fields live.fields

section
variable {sink : FindingSink} (enabled : Enabled sink.severities)
include enabled

theorem columnType_nil {table : TableDescription} {ddl live : ColumnDescription} :
    diffColumnType sink table ddl live = [] ↔ SameType ddl.neutralType live.neutralType := by
  unfold diffColumnType SameType
  cases ddl.neutralType with
  | none => simp
  | some ddlType =>
    cases live.neutralType with
    | none => simp
    | some liveType =>
      have noisy := fun message => push_ne sink (enabled "SC-DRF05" (by decide)) "column-type-mismatch" message
      by_cases same : ddlType = liveType <;> simp [typesMatchForDrift,same,noisy]

theorem columnNullability_nil {ddlTable liveTable : TableDescription} {ddl live : ColumnDescription} :
    diffColumnNullability sink ddlTable liveTable ddl live = [] ↔
      ((ddlTable.nullabilityIsAuthoritative && liveTable.nullabilityIsAuthoritative) = true →
        ddl.nullable = live.nullable) := by
  unfold diffColumnNullability
  have noisy := fun message => push_ne sink (enabled "SC-DRF06" (by decide)) "column-nullability-mismatch" message
  cases ddlTable.nullabilityIsAuthoritative <;> cases liveTable.nullabilityIsAuthoritative <;>
    by_cases same : ddl.nullable = live.nullable <;> simp [same,noisy]

theorem columns_nil {ddl live : TableDescription} : diffColumns sink ddl live = [] ↔ TableAgrees ddl live := by
  unfold diffColumns TableAgrees
  apply aligned_nil
  · intro entry
    cases live.columns[entry.1]? with
    | none =>
      have noisy := fun message =>
        push_ne sink (enabled "SC-DRF03" (by decide)) "column-missing-from-database" message
      simp [noisy]
    | some other =>
      dsimp only
      rw [List.append_eq_nil_iff,columnType_nil enabled,columnNullability_nil enabled]
      constructor
      · intro both
        exact ⟨other,rfl,both.1,both.2⟩
      · intro found
        obtain ⟨column,same,agrees⟩ := found
        cases same
        exact ⟨agrees.type,agrees.nullability⟩
  · exact fun _ => expected_nil (push_ne sink (enabled "SC-DRF04" (by decide)) _ _)

theorem fieldType_nil {composite : CompositeDescription} {ddl live : CompositeFieldDescription} :
    diffCompositeFieldType sink composite ddl live = [] ↔ SameType ddl.neutralType live.neutralType := by
  unfold diffCompositeFieldType SameType
  cases ddl.neutralType with
  | none => simp
  | some ddlType =>
    cases live.neutralType with
    | none => simp
    | some liveType =>
      have noisy := fun message =>
        push_ne sink (enabled "SC-DRF12" (by decide)) "composite-field-type-mismatch" message
      by_cases same : ddlType = liveType <;> simp [typesMatchForDrift,same,noisy]

theorem fields_nil {ddl live : CompositeDescription} :
    diffCompositeFields sink ddl live = [] ↔ CompositeAgrees ddl live := by
  unfold diffCompositeFields CompositeAgrees
  apply aligned_nil
  · intro entry
    cases live.fields[entry.1]? with
    | none =>
      have noisy := fun message =>
        push_ne sink (enabled "SC-DRF10" (by decide)) "composite-field-missing-from-database" message
      simp [noisy]
    | some other =>
      have noisy := fun message =>
        push_ne sink (enabled "SC-DRF13" (by decide)) "composite-field-nullability-mismatch" message
      dsimp only
      rw [List.append_eq_nil_iff,fieldType_nil enabled]
      constructor
      · intro both
        refine ⟨other,rfl,both.1,?_⟩
        by_contra differ
        rw [if_neg differ] at both
        exact noisy _ both.2
      · intro found
        obtain ⟨field,same,agrees⟩ := found
        cases same
        exact ⟨agrees.type,if_pos agrees.nullability⟩
  · exact fun _ => expected_nil (push_ne sink (enabled "SC-DRF11" (by decide)) _ _)

end

end Scythe.Drift
