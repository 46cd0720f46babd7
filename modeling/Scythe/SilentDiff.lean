import Scythe.SchemaDiff

-- What a comparison without findings says of the catalog and of the rows.
namespace Scythe.Drift
open Text Aliases Verification

def isQualified (key : String) : Bool := contains key "."

theorem isQualified_iff {key : String} : isQualified key ↔ '.' ∈ key.toList := by
  have dot : ".".toList = ['.'] := rfl
  unfold isQualified
  rw [contains_iff,dot,List.singleton_infix_iff]

theorem bareName_plain (key : String) : ¬isQualified (bareName key) := by
  rw [isQualified_iff]
  unfold bareName rsplitOnce
  by_cases dotted : '.' ∈ key.toList
  · obtain ⟨before,after,split,absent⟩ := List.eq_append_cons_of_mem (List.mem_reverse.mpr dotted)
    rw [split,splitFirst_single absent]
    simpa using absent
  · have whole : splitFirst ['.'] key.toList.reverse = none := by
      apply Option.not_isSome_iff_eq_none.mp
      rw [splitFirst_isSome,List.singleton_infix_iff,List.mem_reverse]
      exact dotted
    rw [whole]
    exact dotted

theorem dotted_name (schema name : String) : isQualified (schema ++ "." ++ name) := by
  rw [isQualified_iff]
  simp

section
variable [CaseMap]

-- Lower case keeps a dot.
def KeepsDots : Prop := ∀ name : String,isQualified name → isQualified (CaseMap.lowercase name)

theorem descriptionKey_qualified (keeps : KeepsDots) (name : String) :
    isQualified (descriptionKey name) = isQualified name := by
  have cut : descriptionKey name = if isQualified name then CaseMap.lowercase name else objectKey name := rfl
  rw [cut]
  by_cases dotted : isQualified name = true
  · rw [if_pos dotted,dotted]
    exact keeps name dotted
  · rw [if_neg dotted,Bool.eq_false_iff.mpr dotted]
    exact Bool.eq_false_iff.mpr (bareName_plain _)

end

-- The same keys on both sides, and members that agree where both are the last
-- ones of their key.
structure Members {β ρ : Type} (ddlKey : β → String) (liveKey : ρ → String) (Same : β → ρ → Prop) (ddl : List β)
    (live : List ρ) : Prop where
  found : ∀ member ∈ ddl,∃ row ∈ live,liveKey row = ddlKey member
  declared : ∀ row ∈ live,∃ member ∈ ddl,ddlKey member = liveKey row
  same : ∀ (member : β) (row : ρ),last ddlKey (ddlKey member) ddl = some member →
    last liveKey (ddlKey member) live = some row → Same member row

theorem ofList_isSome {β δ : Type} (key : β → String) (value : β → δ) {members : List β} {member : β}
    (among : member ∈ members) : ∃ held,(ofList key value members)[key member]? = some held := by
  rw [ofList_get]
  obtain ⟨found,is⟩ := Option.isSome_iff_exists.mp (last_isSome.mpr ⟨member,among,rfl⟩)
  exact ⟨value found,congrArg (Option.map value) is⟩

theorem aligned_members {β ρ δ : Type} {ddlKey : β → String} {liveKey : ρ → String} {describe : β → δ} {read : ρ → δ}
    {Same : δ → δ → Prop} {ddl : List β} {live : List ρ}
    (aligned : Aligned Same (ofList ddlKey describe ddl) (ofList liveKey read live)) :
    Members ddlKey liveKey (fun member row => Same (describe member) (read row)) ddl live := by
  constructor
  · intro member among
    obtain ⟨held,is⟩ := ofList_isSome ddlKey describe among
    obtain ⟨other,found,_⟩ := aligned.declared _ _ is
    rw [ofList_get] at found
    obtain ⟨row,last,_⟩ := Option.map_eq_some_iff.mp found
    exact ⟨row,last_some last⟩
  · intro row among
    obtain ⟨held,is⟩ := ofList_isSome liveKey read among
    obtain ⟨other,found⟩ := aligned.known _ _ is
    rw [ofList_get] at found
    obtain ⟨member,last,_⟩ := Option.map_eq_some_iff.mp found
    exact ⟨member,last_some last⟩
  · intro member row speaks answers
    have held : (ofList ddlKey describe ddl)[ddlKey member]? = some (describe member) := by
      rw [ofList_get,speaks]
      rfl
    obtain ⟨other,found,agrees⟩ := aligned.declared _ _ held
    rw [ofList_get,answers] at found
    cases found
    exact agrees

section
variable [CaseMap]

-- The objects of a catalog and the rows of their counterparts. An entry speaks
-- for its key where it is the last one of the key.
structure Matched {α ρ : Type} (names : List (Σ _ : String, α)) (rows : List ρ) (find : String → Option String)
    (qualified : ρ → String) (Agrees : (Σ _ : String, α) → List ρ → Prop) : Prop where
  found : ∀ entry ∈ names,(find entry.1).isSome
  declared : ∀ row ∈ rows,∃ entry ∈ names,find entry.1 = some (qualified row)
  agrees : ∀ (entry : Σ _ : String, α) (key : String),last entryKey (entryKey entry) names = some entry →
    find entry.1 = some key → Agrees entry (rows.filter fun row => qualified row = key)
  apart : ∀ entry ∈ names,∀ other ∈ names,isQualified entry.1 = isQualified other.1 → find entry.1 = find other.1 →
    entryKey entry = entryKey other

-- A live object is declared under its qualified key, or under the bare one when
-- it is the object that the bare key finds.
def Expected {δ : Type} (display : δ → String) (ddl live : Entries δ) (key : String) (value : δ) : Prop :=
  isBareAlias key (display value) (live.toList.map fun other => (other.1,display other.2)) ∨ ddl.contains key ∨
    ddl.contains (objectKey (display value)) ∧
      live[objectKey (display value)]?.any fun winner => display winner = display value

structure Silent {δ : Type} (display : δ → String) (Same : δ → δ → Prop) (ddl live : Entries δ) : Prop where
  declared : ∀ (key : String) (value : δ),ddl[key]? = some value → ∃ other,live[key]? = some other ∧ Same value other
  expected : ∀ (key : String) (value : δ),live[key]? = some value → Expected display ddl live key value

theorem silent_nil {δ : Type} {display : δ → String} {Same : δ → δ → Prop} {ddl live : Entries δ}
    {missing extra : String × δ → List Finding}
    (paired : ∀ entry,missing entry = [] → ∃ other,live[entry.1]? = some other ∧ Same entry.2 other)
    (expected : ∀ entry,extra entry = [] → Expected display ddl live entry.1 entry.2)
    (clean : ddl.toList.flatMap missing ++ live.toList.flatMap extra = []) : Silent display Same ddl live := by
  rw [List.append_eq_nil_iff,flatMap_nil,flatMap_nil] at clean
  constructor
  · intro key value held
    exact paired _ (clean.1 key value held)
  · intro key value held
    exact expected _ (clean.2 key value held)

section
variable {sink : FindingSink} (enabled : Enabled sink.severities) {ddl live : SchemaDescription}
include enabled

theorem tables_silent (clean : diffTables sink ddl live = []) :
    Silent TableDescription.displayName TableAgrees ddl.tables live.tables := by
  have on : ¬(!sink.isEnabled "SC-DRF02") = true := by
    simpa using isEnabled_iff.mpr (enabled "SC-DRF02" (by decide))
  unfold diffTables at clean
  rw [if_neg on] at clean
  refine silent_nil ?_ ?_ clean
  · intro entry quiet
    cases found : live.tables[entry.1]? with
    | none =>
      rw [found] at quiet
      exact absurd quiet (push_ne sink (enabled "SC-DRF01" (by decide)) _ _)
    | some other =>
      rw [found] at quiet
      exact ⟨other,rfl,(columns_nil enabled).mp quiet⟩
  · intro entry quiet
    have noisy := fun message =>
      push_ne sink (enabled "SC-DRF02" (by decide)) "table-missing-from-ddl" message
    unfold Expected
    by_contra unexpected
    rw [not_or,not_or] at unexpected
    rw [if_neg unexpected.1] at quiet
    dsimp only at quiet
    rw [if_neg] at quiet
    · exact noisy _ quiet
    · rw [Bool.or_eq_true,Bool.and_eq_true]
      exact not_or.mpr unexpected.2

theorem composites_silent (clean : diffComposites sink ddl live = []) :
    Silent CompositeDescription.displayName CompositeAgrees ddl.composites live.composites := by
  unfold diffComposites at clean
  refine silent_nil ?_ ?_ clean
  · intro entry quiet
    cases found : live.composites[entry.1]? with
    | none =>
      rw [found] at quiet
      exact absurd quiet (push_ne sink (enabled "SC-DRF08" (by decide)) _ _)
    | some other =>
      rw [found] at quiet
      exact ⟨other,rfl,(fields_nil enabled).mp quiet⟩
  · intro entry quiet
    have noisy := fun message =>
      push_ne sink (enabled "SC-DRF09" (by decide)) "composite-missing-from-ddl" message
    unfold Expected
    by_contra unexpected
    rw [not_or,not_or] at unexpected
    rw [if_neg unexpected.1] at quiet
    dsimp only at quiet
    rw [if_pos] at quiet
    · exact noisy _ quiet
    · rw [Bool.and_eq_true,Bool.not_eq_true',Bool.not_eq_true',Bool.eq_false_iff,Bool.eq_false_iff,ne_eq,ne_eq,
        Bool.and_eq_true]
      exact unexpected.2

omit [CaseMap] in
theorem enums_silent (clean : diffEnums sink ddl live = []) {key : String} {declared held : EnumDescription}
    (is : ddl.enums[key]? = some declared) (found : live.enums[key]? = some held) (label : String) :
    label ∈ declared.values ↔ label ∈ held.values := by
  have on : ¬(!sink.isEnabled "SC-DRF07") = true := by
    simpa using isEnabled_iff.mpr (enabled "SC-DRF07" (by decide))
  have noisy := fun message => push_ne sink (enabled "SC-DRF07" (by decide)) "enum-values-mismatch" message
  unfold diffEnums at clean
  rw [if_neg on,flatMap_nil] at clean
  have quiet := clean key declared is
  dsimp only at quiet
  rw [found] at quiet
  dsimp only at quiet
  by_cases both : ((difference declared.values held.values).isEmpty &&
      (difference held.values declared.values).isEmpty) = true
  · unfold difference at both
    simp only [Bool.and_eq_true,List.isEmpty_iff,List.filter_eq_nil_iff,Bool.not_eq_true,Bool.not_eq_false',
      List.contains_iff_mem] at both
    exact ⟨both.1 label,both.2 label⟩
  · rw [if_neg both] at quiet
    exact absurd quiet (noisy _)

end

section
variable {α ρ δ : Type} {qualified bare : ρ → String} {rank : ρ → Int} {fresh : ρ → δ} {add : δ → ρ → δ}
  {rows : List ρ} {names : List (Σ _ : String, α)} {describe : (Σ _ : String, α) → δ} {display : δ → String}
  {Same : δ → δ → Prop} {live : Entries δ}

theorem matched (keeps : KeepsDots) (separate : KeysApart isQualified qualified bare)
    (held : ∀ key : String,live[key]? = (counterpart isQualified qualified bare rank key (openers qualified rows)).bind
      fun found => object qualified fresh add found rows)
    (spelled : ∀ (key : String) (value : δ),object qualified fresh add key rows = some value →
      CaseMap.lowercase (display value) = key)
    (silent : Silent display Same (ofList entryKey describe names) live) :
    Matched names rows
      (fun name => counterpart isQualified qualified bare rank (descriptionKey name) (openers qualified rows)) qualified
      fun entry own => ∃ first,own.head? = some first ∧ Same (describe entry) (own.foldl add (fresh first)) := by
  constructor
  · intro entry among
    obtain ⟨value,is⟩ := ofList_isSome entryKey describe among
    obtain ⟨other,found,_⟩ := silent.declared _ _ is
    rw [held] at found
    obtain ⟨key,finds,_⟩ := Option.bind_eq_some_iff.mp found
    exact Option.isSome_iff_exists.mpr ⟨key,finds⟩
  · intro row among
    have known : qualified row ∈ rows.map qualified := List.mem_map_of_mem among
    have own := counterpart_own bare rank (separate.qualified row)
      ((openers_keys qualified rows _).mpr known)
    have opened : (object qualified fresh add (qualified row) rows).isSome := (object_isSome qualified).mpr known
    obtain ⟨value,is⟩ := Option.isSome_iff_exists.mp opened
    have present : live[qualified row]? = some value := by
      rw [held,own]
      exact is
    rcases silent.expected _ _ present with alias' | declared | speaks
    · unfold isBareAlias at alias'
      have dotted := separate.qualified row
      unfold isQualified at dotted
      rw [dotted] at alias'
      cases alias'
    · obtain ⟨other,holds⟩ := contains_get.mp declared
      rw [ofList_get] at holds
      obtain ⟨entry,last,_⟩ := Option.map_eq_some_iff.mp holds
      obtain ⟨member,same⟩ := last_some last
      refine ⟨entry,member,?_⟩
      have spelt : descriptionKey entry.1 = qualified row := same
      rw [spelt]
      exact own
    · obtain ⟨other,holds⟩ := contains_get.mp speaks.1
      rw [ofList_get] at holds
      obtain ⟨entry,last,_⟩ := Option.map_eq_some_iff.mp holds
      obtain ⟨member,same⟩ := last_some last
      obtain ⟨winner,wins,equal⟩ := (Option.any_eq_true _ _).mp speaks.2
      rw [held] at wins
      obtain ⟨found,finds,winning⟩ := Option.bind_eq_some_iff.mp wins
      refine ⟨entry,member,?_⟩
      have spelt : descriptionKey entry.1 = objectKey (display value) := same
      rw [spelt,finds,← spelled _ _ winning,of_decide_eq_true equal,spelled _ _ is]
  · intro entry key last finds
    have declared : (ofList entryKey describe names)[entryKey entry]? = some (describe entry) := by
      rw [ofList_get,last]
      rfl
    obtain ⟨other,found,agrees⟩ := silent.declared _ _ declared
    have reads : live[entryKey entry]? = object qualified fresh add key rows := by
      rw [held]
      unfold entryKey
      rw [finds]
      rfl
    rw [reads] at found
    obtain ⟨first,head,rfl⟩ := Option.map_eq_some_iff.mp found
    exact ⟨first,head,agrees⟩
  · intro entry among other _ alike same
    obtain ⟨value,is⟩ := ofList_isSome entryKey describe among
    obtain ⟨_,found,_⟩ := silent.declared _ _ is
    rw [held] at found
    obtain ⟨key,finds,_⟩ := Option.bind_eq_some_iff.mp found
    have spelt : isQualified (descriptionKey entry.1) = isQualified (descriptionKey other.1) := by
      rw [descriptionKey_qualified keeps,descriptionKey_qualified keeps,alike]
    exact counterpart_apart (openers_distinct rows) spelt finds (same ▸ finds)

end

variable (catalog : Catalog) (rows : LiveRows)

def tableCounterpart (name : String) : Option String :=
  counterpart isQualified PgColumnRow.qualified PgColumnRow.bare PgColumnRow.schemaRank (descriptionKey name)
    (openers PgColumnRow.qualified rows.columns)

def compositeCounterpart (name : String) : Option String :=
  counterpart isQualified PgCompositeFieldRow.qualified PgCompositeFieldRow.bare PgCompositeFieldRow.schemaRank
    (descriptionKey name) (openers PgCompositeFieldRow.qualified rows.composites)

def enumCounterpart (name : String) : Option ScopedEnum :=
  (counterpart isQualified ScopedEnum.qualified ScopedEnum.bare ScopedEnum.rank (descriptionKey name)
    (scopedEnums rows)).bind fun found => last ScopedEnum.qualified found (scopedEnums rows)

-- What a relation is comes from its first row.
def authoritative (own : List PgColumnRow) : Bool := own.head?.any fun first => authoritativeKind first.relationKind

def TableMatches (entry : Σ _ : String, Table) (own : List PgColumnRow) : Prop :=
  Members columnKey PgColumnRow.key
    (fun column row => ColumnAgrees (authoritative own) (describeColumn catalog column) (liveColumn rows row))
    entry.2.columns own

def CompositeMatches (entry : Σ _ : String, CompositeType) (own : List PgCompositeFieldRow) : Prop :=
  Members fieldKey PgCompositeFieldRow.key
    (fun field row => FieldAgrees (describeField catalog field) (liveField rows row)) entry.2.fields own

variable {catalog rows}

theorem tables_separate (keeps : KeepsDots) : KeysApart isQualified PgColumnRow.qualified PgColumnRow.bare :=
  ⟨fun _ => keeps _ (dotted_name _ _),fun _ => bareName_plain _⟩

theorem composites_separate (keeps : KeepsDots) :
    KeysApart isQualified PgCompositeFieldRow.qualified PgCompositeFieldRow.bare :=
  ⟨fun _ => keeps _ (dotted_name _ _),fun _ => bareName_plain _⟩

theorem enums_separate (keeps : KeepsDots) : KeysApart isQualified ScopedEnum.qualified ScopedEnum.bare :=
  ⟨fun _ => keeps _ (dotted_name _ _),fun _ => bareName_plain _⟩

theorem columns_added (own : List PgColumnRow) (table : TableDescription) :
    own.foldl (addColumn rows) table = { table with
      columns := own.foldl (fun entries row => entries.insert row.key (liveColumn rows row)) table.columns } := by
  induction own generalizing table with
  | nil => rfl
  | cons row own ih =>
    rw [List.foldl_cons,ih]
    rfl

theorem fields_added (own : List PgCompositeFieldRow) (composite : CompositeDescription) :
    own.foldl (addField rows) composite = { composite with
      fields := own.foldl (fun entries row => entries.insert row.key (liveField rows row)) composite.fields } := by
  induction own generalizing composite with
  | nil => rfl
  | cons row own ih =>
    rw [List.foldl_cons,ih]
    rfl

-- An object's name is spelt by its first row, and so is its key.
theorem table_spelled (key : String) (table : TableDescription)
    (is : object PgColumnRow.qualified openTable (addColumn rows) key rows.columns = some table) :
    CaseMap.lowercase table.displayName = key := by
  obtain ⟨first,head,rfl⟩ := Option.map_eq_some_iff.mp is
  have own := (List.mem_filter.mp (List.mem_of_mem_head? head)).2
  rw [columns_added]
  exact of_decide_eq_true own

theorem composite_spelled (key : String) (composite : CompositeDescription)
    (is : object PgCompositeFieldRow.qualified openComposite (addField rows) key rows.composites = some composite) :
    CaseMap.lowercase composite.displayName = key := by
  obtain ⟨first,head,rfl⟩ := Option.map_eq_some_iff.mp is
  have own := (List.mem_filter.mp (List.mem_of_mem_head? head)).2
  rw [fields_added]
  exact of_decide_eq_true own

theorem enums_get (keeps : KeepsDots) (name : String) :
    (collectEnums rows)[descriptionKey name]? =
      (enumCounterpart rows name).map fun row => ⟨row.displayName,row.values⟩ := by
  unfold collectEnums enumCounterpart
  dsimp only
  rw [aliased_counterpart (enums_separate keeps),Option.map_bind]
  · simp only [ofList_get]
    rfl
  · intro key
    rw [ofList_get,Option.isSome_map,last_isSome,List.mem_map]

theorem Matched.imp {α ρ : Type} {names : List (Σ _ : String, α)} {own : List ρ} {find : String → Option String}
    {qualified : ρ → String} {Agrees Agrees' : (Σ _ : String, α) → List ρ → Prop}
    (weaker : ∀ entry own,Agrees entry own → Agrees' entry own) (matched : Matched names own find qualified Agrees) :
    Matched names own find qualified Agrees' where
  found := matched.found
  declared := matched.declared
  agrees entry key last finds := weaker _ _ (matched.agrees entry key last finds)
  apart := matched.apart

theorem tables_matched (keeps : KeepsDots)
    (silent : Silent TableDescription.displayName TableAgrees (describeCatalog catalog).tables (fetchTables rows)) :
    Matched (byName catalog.tables) rows.columns (tableCounterpart rows) PgColumnRow.qualified
      (TableMatches catalog rows) := by
  apply Matched.imp ?_ (matched keeps (tables_separate keeps)
    (fun key => registered_counterpart (tables_separate keeps) openTable (addColumn rows) rfl key) table_spelled silent)
  intro entry own held
  obtain ⟨first,head,agrees⟩ := held
  rw [columns_added] at agrees
  unfold TableMatches authoritative
  rw [head]
  exact aligned_members agrees

theorem composites_matched (keeps : KeepsDots) (silent : Silent CompositeDescription.displayName CompositeAgrees
    (describeCatalog catalog).composites (collectComposites rows)) :
    Matched (byName catalog.composites) rows.composites (compositeCounterpart rows) PgCompositeFieldRow.qualified
      (CompositeMatches catalog rows) := by
  apply Matched.imp ?_ (matched keeps (composites_separate keeps)
    (fun key => registered_counterpart (composites_separate keeps) openComposite (addField rows) rfl key)
    composite_spelled silent)
  intro entry own held
  obtain ⟨first,head,agrees⟩ := held
  rw [fields_added] at agrees
  exact aligned_members agrees

end

section Undetected
local instance driftCase : CaseMap := ascii

def everyRule : DriftSeverities := ⟨driftRuleIds.map fun ruleId => (ruleId,.error)⟩

def requiredColumn (name sqlType : String) : Column := ⟨name,sqlType,false,none,false⟩

def requiredRow (schemaName relationName columnName : String) (typeOid : Nat) : PgColumnRow :=
  ⟨schemaName,relationName,"r",columnName,true,typeOid,false,0⟩

def declaredTables (tables : List (Σ _ : String, Table)) : Catalog :=
  { Catalog.new .postgreSQL with tables := tables.toAList }

def integerRows (columns : List PgColumnRow) : LiveRows where
  fromOid oid := if oid = 23 then some (.simple "int4") else none
  types := ∅
  enumLabels := ∅
  scope := ["public"]
  columns := columns
  composites := []

-- A column of the enum of one schema, and of the other one in the database.
def statusCatalog : Catalog :=
  { declaredTables [⟨"a.orders",[requiredColumn "state" "a.status"],"orders"⟩] with
    enums := [⟨"a.status",⟨["open"]⟩⟩,⟨"b.status",⟨["open"]⟩⟩].toAList }

def statusRows : LiveRows :=
  { integerRows [requiredRow "a" "orders" "state" 502] with
    types := [⟨501,⟨"status","a","e",0,0,"E"⟩⟩,⟨502,⟨"status","b","e",0,0,"E"⟩⟩].toAList
    enumLabels := [⟨501,["open"]⟩,⟨502,["open"]⟩].toAList
    scope := ["a","b"] }

def usersCatalog : Catalog := declaredTables [⟨"public.users",[requiredColumn "id" "integer"],"users"⟩]

def usersRows : LiveRows :=
  integerRows [requiredRow "public" "Users" "id" 23,requiredRow "public" "users" "id" 23,
    requiredRow "public" "users" "ID" 23]

def bothSpellings : Catalog :=
  declaredTables [⟨"public.users",[requiredColumn "id" "integer"],"users"⟩,⟨"users",[requiredColumn "id" "integer"],"users"⟩]

def oneUsers : LiveRows := integerRows [requiredRow "public" "users" "id" 23]

-- Where the names are in order already.
theorem describe_sorted {catalog : Catalog} (tables : catalog.tables.entries.Pairwise fun a b => a.1 ≤ b.1)
    (enums : catalog.enums.entries.Pairwise fun a b => a.1 ≤ b.1)
    (composites : catalog.composites.entries.Pairwise fun a b => a.1 ≤ b.1) :
    describeCatalog catalog = ⟨ofList entryKey (describeTable catalog) catalog.tables.entries,
      ofList entryKey describeEnum catalog.enums.entries,
      ofList entryKey (describeComposite catalog) catalog.composites.entries⟩ := by
  have sorted : ∀ {α : Type} {map : AHashMap α},map.entries.Pairwise (fun a b => a.1 ≤ b.1) → byName map = map.entries := by
    intro α map ordered
    exact List.mergeSort_of_pairwise (ordered.imp decide_eq_true)
  unfold describeCatalog
  rw [sorted tables,sorted enums,sorted composites]

theorem enum_schema_unseen : diff (describeCatalog statusCatalog) (describeLive statusRows) everyRule "main" = [] := by
  rw [describe_sorted (by decide +kernel) (by decide +kernel) (by decide +kernel)]
  decide +kernel

theorem letter_case_unseen : diff (describeCatalog usersCatalog) (describeLive usersRows) everyRule "main" = [] := by
  rw [describe_sorted (by decide +kernel) (by decide +kernel) (by decide +kernel)]
  decide +kernel

theorem spelling_unseen : diff (describeCatalog bothSpellings) (describeLive oneUsers) everyRule "main" = [] := by
  rw [describe_sorted (by decide +kernel) (by decide +kernel) (by decide +kernel)]
  decide +kernel

theorem ascii_keeps_dots : KeepsDots := by
  intro name dotted
  rw [isQualified_iff] at dotted ⊢
  have mapped : (CaseMap.lowercase name).toList = name.toList.map asciiLower := String.toList_ofList
  rw [mapped]
  exact List.mem_map.mpr ⟨'.',dotted,rfl⟩

end Undetected

end Scythe.Drift
