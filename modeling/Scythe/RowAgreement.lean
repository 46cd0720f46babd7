import Scythe.RowTypes

-- Whether the row types of a query say the same rows.
namespace Scythe.RowTypes
open Text Alternatives

section Types

-- Texts whose brackets close what they open, and that nothing stops outside of them.
def nests (stops : Char → Bool) : Nat → List Char → Bool
  | depth,[] => depth = 0
  | depth,c :: cs =>
    if c ∈ ['(','<','[','\x7b'] then nests stops (depth + 1) cs
    else if c ∈ [')','>',']','\x7d'] then depth ≠ 0 && nests stops (depth - 1) cs
    else !(['"','\'','\x60','=','/'].contains c) && (depth ≠ 0 || !stops c) && nests stops depth cs

-- A type of its own, that another may follow in a union.
def wholeType (tsType : List Char) : Bool :=
  nests (fun c => [',',';',':','?'].contains c) 0 tsType && !(trimChars tsType).isEmpty

-- A type that a postfix takes as one.
def postfixType (tsType : List Char) : Bool :=
  nests (fun c => isSpace c || ['|','&',',',';',':','?'].contains c) 0 tsType && !tsType.isEmpty

variable {V : Type}

-- What the compiler reads in a type, and the rows of a type of the driver.
structure TypeScript (V : Type) where
  null : V
  array : Set V → Set V
  reads : List Char → Set V
  objects : List Char → Set (Record (List Char) V)
  reads_null : reads "null".toList = {null}
  trimmed : ∀ tsType,reads (trimChars tsType) = reads tsType
  nullable : ∀ tsType,wholeType tsType → reads (tsType ++ " | null".toList) = insert null (reads tsType)
  generic : ∀ tsType,wholeType tsType → reads ("Array<".toList ++ tsType ++ ['>']) = array (reads tsType)
  brackets : ∀ tsType,postfixType tsType → reads (tsType ++ "[]".toList) = array (reads tsType)

-- What `z.infer` makes of a schema. The schema of an enum stands under the name of the
-- enum, that its inferred type has.
def TypeScript.infer (ts : TypeScript V) : Zod → Set V
  | .nullable inner => insert ts.null (ts.infer inner)
  | .array element => ts.array (ts.infer element)
  | .boolean => ts.reads "boolean".toList
  | .number => ts.reads "number".toList
  | .bigint => ts.reads "bigint".toList
  | .string => ts.reads "string".toList
  | .uuid => ts.reads "string".toList
  | .date => ts.reads "Date".toList
  | .unknown => ts.reads "unknown".toList
  | .instanceOf constructor => ts.reads constructor
  | .unknownRecord => ts.reads "Record<string, unknown>".toList
  | .custom type => ts.reads type
  | .declared name => ts.reads name
  | .null => {ts.null}

-- The types that the conversion takes apart where the compiler does.
def plainType (tsType : List Char) : Bool :=
  match _form : typeForm (trimChars tsType) with
  | .nullable base => wholeType base && plainType base
  | .generic element => wholeType element && plainType element
  | .brackets element => postfixType element && plainType element
  | .plain => true
termination_by tsType.length
decreasing_by
  · exact nullable_shorter ‹_›
  · exact generic_shorter ‹_›
  · exact brackets_shorter ‹_›

theorem plain_nullable {tsType base : List Char} (form : typeForm (trimChars tsType) = .nullable base)
    (plain : plainType tsType) : wholeType base ∧ plainType base := by
  rw [plainType] at plain
  split at plain
  all_goals rename_i is
  all_goals rw [form] at is
  all_goals cases is
  exact (Bool.and_eq_true_iff).mp plain

theorem plain_generic {tsType element : List Char} (form : typeForm (trimChars tsType) = .generic element)
    (plain : plainType tsType) : wholeType element ∧ plainType element := by
  rw [plainType] at plain
  split at plain
  all_goals rename_i is
  all_goals rw [form] at is
  all_goals cases is
  exact (Bool.and_eq_true_iff).mp plain

theorem plain_brackets {tsType element : List Char} (form : typeForm (trimChars tsType) = .brackets element)
    (plain : plainType tsType) : postfixType element ∧ plainType element := by
  rw [plainType] at plain
  split at plain
  all_goals rename_i is
  all_goals rw [form] at is
  all_goals cases is
  exact (Bool.and_eq_true_iff).mp plain

theorem infer_tsTypeToZod (ts : TypeScript V) {tsType : List Char} (plain : plainType tsType) :
    ts.infer (tsTypeToZod tsType) = ts.reads tsType := by
  have spells := typeForm_spells (trimChars tsType)
  rw [← ts.trimmed tsType]
  fun_induction tsTypeToZod tsType with
  | case1 tsType base form ih =>
    obtain ⟨whole,inner⟩ := plain_nullable form plain
    rw [form] at spells
    rw [spells,ts.nullable base whole,TypeScript.infer,ih inner (typeForm_spells _),ts.trimmed]
  | case2 tsType element form ih =>
    obtain ⟨whole,inner⟩ := plain_generic form plain
    rw [form] at spells
    rw [spells,ts.generic element whole,TypeScript.infer,ih inner (typeForm_spells _),ts.trimmed]
  | case3 tsType element form ih =>
    obtain ⟨whole,inner⟩ := plain_brackets form plain
    rw [form] at spells
    rw [spells,ts.brackets element whole,TypeScript.infer,ih inner (typeForm_spells _),ts.trimmed]
  | case10 | case12 => rfl
  | _ => exact (congrArg ts.reads (by assumption)).symm

-- The columns whose types the conversion and the compiler take for the same.
def ResolvedColumn.Plain (c : ResolvedColumn) : Prop :=
  if "enum::".toList.isPrefixOf c.neutralType then "enum::".toList.isPrefixOf? c.langType = none
  else plainType c.langType

structure ResolvedColumn.Readable (c : ResolvedColumn) : Prop where
  plain : c.Plain
  whole : c.nullable → wholeType c.langType

theorem reads_full (ts : TypeScript V) {c : ResolvedColumn} (readable : c.Readable) :
    ts.reads c.fullType = if c.nullable then insert ts.null (ts.reads c.langType) else ts.reads c.langType := by
  rw [c.wrapped]
  split
  · exact ts.nullable _ (readable.whole ‹_›)
  · rfl

theorem infer_column (ts : TypeScript V) {c : ResolvedColumn} (plain : c.Plain) (nullable : Bool) :
    ts.infer (columnToZodWithNullable c nullable) =
      if nullable then insert ts.null (ts.reads c.langType) else ts.reads c.langType := by
  have bare : ts.infer (columnToZodWithNullable c false) = ts.reads c.langType := by
    unfold ResolvedColumn.Plain at plain
    unfold columnToZodWithNullable
    rw [if_neg Bool.false_ne_true]
    split at plain
    · rw [if_pos ‹_›,plain]
      rfl
    · rw [if_neg ‹_›]
      by_cases uuid : c.neutralType = "uuid".toList ∧ c.langType = "string".toList
      · rw [if_pos uuid,uuid.2]
        rfl
      · rw [if_neg uuid]
        exact infer_tsTypeToZod ts plain
  cases nullable with
  | false => exact bare
  | true => exact congrArg (insert ts.null) bare

end Types

section Groups

def Discriminated (columns : List ResolvedColumn) (group : String) : Prop :=
  ∃ c ∈ columns,c.joinGroup = some group ∧ c.isJoinDiscriminant

def Apart (columns : List ResolvedColumn) (c : ResolvedColumn) : Prop :=
  ∀ group,c.joinGroup = some group → ¬Discriminated columns group

variable {columns : List ResolvedColumn}

theorem pushGroup_spec (columns : List ResolvedColumn) {groups : List String} (distinct : groups.Nodup)
    (col : ResolvedColumn) :
    (pushGroup columns groups col).Nodup ∧ ∀ group,group ∈ pushGroup columns groups col ↔
      group ∈ groups ∨ (col.joinGroup = some group ∧ Discriminated columns group) := by
  unfold pushGroup
  cases own : col.joinGroup with
  | none => exact ⟨distinct,fun group => ⟨.inl,Or.rec id fun later => absurd later.1.symm (Option.some_ne_none group)⟩⟩
  | some name =>
    have found : columns.any (fun c => c.joinGroup = some name && c.isJoinDiscriminant) ↔ Discriminated columns name := by
      simp [Discriminated]
    dsimp only
    split
    · obtain ⟨fresh,discriminated⟩ := Bool.and_eq_true_iff.mp ‹_›
      have outside : name ∉ groups := by simpa using fresh
      refine ⟨List.nodup_append.mpr ⟨distinct,List.nodup_singleton _,?_⟩,fun group => ?_⟩
      · intro a left b right is
        exact outside (List.mem_singleton.mp right ▸ is ▸ left)
      · rw [List.mem_append,List.mem_singleton]
        refine or_congr_right ⟨fun is => ⟨congrArg some is.symm,is ▸ found.mp discriminated⟩,fun later => ?_⟩
        exact (Option.some.inj later.1).symm
    · refine ⟨distinct,fun group => ⟨.inl,Or.rec id fun later => ?_⟩⟩
      cases later.1
      by_contra fresh
      exact ‹¬_› (Bool.and_eq_true_iff.mpr ⟨by simpa using fresh,found.mpr later.2⟩)

theorem groups_fold {groups : List String} (distinct : groups.Nodup) (rest : List ResolvedColumn) :
    (rest.foldl (pushGroup columns) groups).Nodup ∧ ∀ group,group ∈ rest.foldl (pushGroup columns) groups ↔
      group ∈ groups ∨ ((∃ c ∈ rest,c.joinGroup = some group) ∧ Discriminated columns group) := by
  induction rest generalizing groups with
  | nil => exact ⟨distinct,fun group => by simp⟩
  | cons col rest ih =>
    obtain ⟨pushed,member⟩ := pushGroup_spec columns distinct col
    obtain ⟨whole,later⟩ := ih pushed
    refine ⟨whole,fun group => ?_⟩
    rw [List.foldl_cons,later group,member group,List.exists_mem_cons_iff]
    tauto

theorem mem_groups {group : String} : group ∈ discriminatedJoinGroups columns ↔ Discriminated columns group := by
  rw [discriminatedJoinGroups,(groups_fold List.nodup_nil columns).2 group]
  constructor
  · rintro (absent | later)
    · exact absurd absent List.not_mem_nil
    · exact later.2
  · intro discriminated
    obtain ⟨c,member,own,-⟩ := id discriminated
    exact .inr ⟨⟨c,member,own⟩,discriminated⟩

theorem groups_nodup (columns : List ResolvedColumn) : (discriminatedJoinGroups columns).Nodup := (groups_fold List.nodup_nil columns).1

theorem mem_outside {c : ResolvedColumn} :
    c ∈ outside (discriminatedJoinGroups columns) columns ↔ c ∈ columns ∧ Apart columns c := by
  have split : c ∈ without ResolvedColumn.joinGroup (discriminatedJoinGroups columns) columns ↔ _ := mem_without
  refine split.trans (and_congr_right fun _ => ?_)
  exact ⟨fun other group own found => other group (mem_groups.mpr found) own,
    fun other group found own => other group own (mem_groups.mp found)⟩

theorem mem_members {group : String} {c : ResolvedColumn} :
    c ∈ members group columns ↔ c ∈ columns ∧ c.joinGroup = some group := by
  have shared : c ∈ sharing ResolvedColumn.joinGroup group columns ↔ _ := mem_sharing
  exact shared

end Groups

section Rows
variable {V : Type}

-- The rows in which the columns apart have their types, and each discriminated group
-- is matched or not.
def choiceRows (columns : List ResolvedColumn) (whole matched : ResolvedColumn → Set V) (unmatched : Set V) :
    Set (Record (List Char) V) :=
  {row | (∀ c ∈ columns,Apart columns c → Holds row c.fieldName (whole c)) ∧
    ∀ group,Discriminated columns group →
      (∀ c ∈ columns,c.joinGroup = some group → Holds row c.fieldName (matched c)) ∨
        ∀ c ∈ columns,c.joinGroup = some group → Holds row c.fieldName unmatched}

theorem rowType_records {τ : Type} (meaning : τ → Set V) (columns : List ResolvedColumn)
    (whole matched : ResolvedColumn → τ) (unmatched : τ) :
    (rowType columns whole matched unmatched).records meaning =
      choiceRows columns (fun c => meaning (whole c)) (fun c => meaning (matched c)) (meaning unmatched) := by
  have side (row : Record (List Char) V) (group : String) (type : ResolvedColumn → τ) :
      Meets meaning row ((members group columns).map fun c => (c.fieldName,type c)) ↔
        ∀ c ∈ columns,c.joinGroup = some group → Holds row c.fieldName (meaning (type c)) :=
    meets_map.trans ⟨fun all c member own => all c (mem_members.mpr ⟨member,own⟩),
      fun all c inside => all c (mem_members.mp inside).1 (mem_members.mp inside).2⟩
  ext row
  refine and_congr ?_ ?_
  · exact meets_map.trans ⟨fun all c member apart => all c (mem_outside.mpr ⟨member,apart⟩),
      fun all c inside => all c (mem_outside.mp inside).1 (mem_outside.mp inside).2⟩
  · refine List.forall_mem_map.trans ⟨fun all group found => ?_,fun all group listed => ?_⟩
    · exact (all group (mem_groups.mpr found)).imp (side row group matched).mp (side row group fun _ => unmatched).mp
    · exact (all group (mem_groups.mp listed)).imp (side row group matched).mpr (side row group fun _ => unmatched).mpr

theorem rowType_once {τ : Type} (columns : List ResolvedColumn) (whole matched : ResolvedColumn → τ) (unmatched : τ) :
    (rowType columns whole matched unmatched).fields.Perm (columns.map (·.fieldName)) := by
  have parts := (partition_perm ResolvedColumn.joinGroup (groups_nodup columns) columns).map (·.fieldName)
  rw [List.map_append,List.map_flatMap] at parts
  unfold RecordType.fields rowType
  simp only [List.map_map,List.flatMap_map]
  exact parts

theorem choiceRows_congr {columns : List ResolvedColumn} {whole whole' matched matched' : ResolvedColumn → Set V}
    {unmatched : Set V} (sameWhole : ∀ c ∈ columns,Apart columns c → whole c = whole' c)
    (sameMatched : ∀ c ∈ columns,∀ group,c.joinGroup = some group → Discriminated columns group → matched c = matched' c) :
    choiceRows columns whole matched unmatched = choiceRows columns whole' matched' unmatched := by
  ext row
  refine and_congr (forall₂_congr fun c member => forall_congr' fun apart => by rw [sameWhole c member apart]) ?_
  refine forall₂_congr fun group found => or_congr_left ?_
  exact forall₂_congr fun c member => forall_congr' fun own => by rw [sameMatched c member group own found]

end Rows

section Agreement
variable {V : Type} (ts : TypeScript V) (resolved : ResolvedColumns)

def TypeScript.driverRows : Option (List Char) → Set (Record (List Char) V)
  | some base => ts.objects base
  | none => Set.univ

def tsRows (base : Option (List Char)) : Set (Record (List Char) V) :=
  ts.driverRows base ∩ (tsRowType resolved.columns).records ts.reads

def flatRows (base : Option (List Char)) : Set (Record (List Char) V) :=
  ts.driverRows base ∩ (flatRowType resolved.columns).records ts.reads

def zodRows : Set (Record (List Char) V) := (zodRowType resolved.columns).records ts.infer

-- The type that a column had before the join.
def preJoin (c : ResolvedColumn) : Set V :=
  if c.nullableBeforeJoin then insert ts.null (ts.reads c.langType) else ts.reads c.langType

def joinRows : Set (Record (List Char) V) :=
  choiceRows resolved.columns (fun c => ts.reads c.fullType) (preJoin ts) {ts.null}

-- Every column once, in the base or on both sides of one choice.
def EachOnce {τ : Type} (type : RecordType (List Char) τ) : Prop :=
  type.fields.Perm (resolved.columns.map (·.fieldName)) ∧ type.fields.Nodup ∧
    ∀ choice ∈ type.choices,choice.left.map Prod.fst = choice.right.map Prod.fst

structure RowTypesAgree : Prop where
  same : ∀ base,tsRows ts resolved base = ts.driverRows base ∩ zodRows ts resolved
  union_once : EachOnce resolved (tsRowType resolved.columns)
  schema_once : EachOnce resolved (zodRowType resolved.columns)
  exact_rows : ∀ base,tsRows ts resolved base = ts.driverRows base ∩ joinRows ts resolved
  within_flat : ∀ base,tsRows ts resolved base ⊆ flatRows ts resolved base

-- The flat type of each column that an outer join can leave without a row has `null`.
def Covered : Prop :=
  ∀ c ∈ resolved.columns,∀ group,c.joinGroup = some group → Discriminated resolved.columns group →
    ts.null ∈ ts.reads c.fullType

-- A column in the base has a type without values, so that there is no row at all.
def Vacant : Prop := ∃ c ∈ resolved.columns,Apart resolved.columns c ∧ ts.reads c.fullType = ∅

def Readable : Prop := ∀ c ∈ resolved.columns,c.Readable

variable {ts resolved}

theorem each_once {τ : Type} (whole matched : ResolvedColumn → τ) (unmatched : τ) :
    EachOnce resolved (rowType resolved.columns whole matched unmatched) := by
  have once := rowType_once resolved.columns whole matched unmatched
  refine ⟨once,once.nodup_iff.mpr resolved.distinct,fun choice listed => ?_⟩
  obtain ⟨group,-,rfl⟩ := List.mem_map.mp listed
  simp

theorem reads_matchedType (ts : TypeScript V) (c : ResolvedColumn) :
    ts.reads (matchedType c) = if c.nullableBeforeJoin then ts.reads c.fullType else ts.reads c.langType := by
  unfold matchedType
  split <;> rfl

theorem tsRows_eq (base : Option (List Char)) :
    tsRows ts resolved base = ts.driverRows base ∩
      choiceRows resolved.columns (fun c => ts.reads c.fullType) (fun c => ts.reads (matchedType c)) {ts.null} := by
  rw [tsRows,tsRowType,rowType_records,ts.reads_null]

theorem zodRows_eq : zodRows ts resolved =
    choiceRows resolved.columns (fun c => ts.infer (columnToZod c))
      (fun c => ts.infer (columnToZodWithNullable c c.nullableBeforeJoin)) {ts.null} := by
  rw [zodRows,zodRowType,rowType_records,TypeScript.infer]

theorem mem_flatRows {base : Option (List Char)} {row : Record (List Char) V} : row ∈ flatRows ts resolved base ↔
    row ∈ ts.driverRows base ∧ ∀ c ∈ resolved.columns,Holds row c.fieldName (ts.reads c.fullType) := by
  refine and_congr_right fun _ => ?_
  exact (and_iff_left (List.forall_mem_nil _)).trans meets_map

-- Where the flat type has the rows, its type of a column is the one before the join
-- together with `null`.
theorem matched_preJoin {c : ResolvedColumn} (readable : c.Readable) (covered : ts.null ∈ ts.reads c.fullType) :
    ts.reads (matchedType c) = preJoin ts c := by
  rw [reads_full ts readable] at covered
  rw [reads_matchedType,reads_full ts readable,preJoin]
  split
  · split at covered
    · rw [if_pos ‹_›]
    · rw [if_neg ‹_›,Set.insert_eq_of_mem covered]
  · rfl

theorem matched_within {c : ResolvedColumn} (readable : c.Readable) :
    ts.reads (matchedType c) ⊆ ts.reads c.fullType := by
  rw [reads_matchedType,reads_full ts readable]
  split
  · exact subset_rfl
  · split
    · exact Set.subset_insert _ _
    · exact subset_rfl

theorem agree_of_covered (readable : Readable resolved) (covered : Covered ts resolved) : RowTypesAgree ts resolved := by
  have exact_rows (base : Option (List Char)) : tsRows ts resolved base = ts.driverRows base ∩ joinRows ts resolved := by
    rw [tsRows_eq,joinRows]
    refine congrArg (ts.driverRows base ∩ ·) (choiceRows_congr (fun c _ _ => rfl) fun c member group own found => ?_)
    exact matched_preJoin (readable c member) (covered c member group own found)
  have schema : zodRows ts resolved = joinRows ts resolved := by
    rw [zodRows_eq,joinRows]
    refine choiceRows_congr (fun c member _ => ?_) fun c member group _ _ => infer_column ts (readable c member).plain _
    rw [columnToZod,infer_column ts (readable c member).plain,reads_full ts (readable c member)]
  refine ⟨fun base => by rw [exact_rows,schema],each_once _ _ _,each_once _ _ _,exact_rows,fun base row inside => ?_⟩
  rw [tsRows_eq] at inside
  obtain ⟨driver,apart,choices⟩ := inside
  refine mem_flatRows.mpr ⟨driver,fun c member => ?_⟩
  by_cases alone : Apart resolved.columns c
  · exact apart c member alone
  · unfold Apart at alone
    push Not at alone
    obtain ⟨group,own,found⟩ := alone
    rcases choices group found with matched | unmatched
    · exact (matched c member own).mono (matched_within (readable c member))
    · exact (unmatched c member own).mono (Set.singleton_subset_iff.mpr (covered c member group own found))

theorem agree_of_vacant (readable : Readable resolved) (vacant : Vacant ts resolved) : RowTypesAgree ts resolved := by
  obtain ⟨c,member,apart,empty⟩ := vacant
  have none (matched : ResolvedColumn → Set V) {whole : ResolvedColumn → Set V} (same : whole c = ∅) :
      choiceRows resolved.columns whole matched {ts.null} = ∅ := by
    refine Set.eq_empty_of_forall_notMem fun row inside => ?_
    obtain ⟨v,absent,-⟩ := inside.1 c member apart
    exact (same ▸ absent : v ∈ (∅ : Set V))
  have union (base : Option (List Char)) : tsRows ts resolved base = ∅ := by
    rw [tsRows_eq,none _ empty,Set.inter_empty]
  have schema : zodRows ts resolved = ∅ := by
    rw [zodRows_eq,none]
    rw [columnToZod,infer_column ts (readable c member).plain,← reads_full ts (readable c member),empty]
  refine ⟨fun base => by rw [union,schema,Set.inter_empty],each_once _ _ _,each_once _ _ _,fun base => ?_,fun base => ?_⟩
  · rw [union,joinRows,none _ empty,Set.inter_empty]
  · rw [union]
    exact Set.empty_subset _

-- A row of the union in which no outer join found anything.
theorem unmatched_row (inhabited : ¬Vacant ts resolved) :
    ∃ row ∈ tsRows ts resolved none,∀ c ∈ resolved.columns,¬Apart resolved.columns c → row c.fieldName = some ts.null := by
  classical
  have value : ∀ c : ResolvedColumn,∃ v,c ∈ resolved.columns → if Apart resolved.columns c then v ∈ ts.reads c.fullType else v = ts.null := by
    intro c
    by_cases apart : Apart resolved.columns c
    · by_cases member : c ∈ resolved.columns
      · have some : ts.reads c.fullType ≠ ∅ := fun empty => inhabited ⟨c,member,apart,empty⟩
        obtain ⟨v,inside⟩ := Set.nonempty_iff_ne_empty.mpr some
        exact ⟨v,fun _ => by rwa [if_pos apart]⟩
      · exact ⟨ts.null,fun other => absurd other member⟩
    · exact ⟨ts.null,fun _ => by rw [if_neg apart]⟩
  choose values fits using value
  obtain ⟨row,holds⟩ := record_of resolved.distinct values
  have null {c : ResolvedColumn} (member : c ∈ resolved.columns) (joined : ¬Apart resolved.columns c) :
      row c.fieldName = some ts.null := by
    have fit := fits c member
    rw [if_neg joined] at fit
    rw [holds c member,fit]
  refine ⟨row,?_,fun c member joined => null member joined⟩
  rw [tsRows_eq]
  refine ⟨Set.mem_univ _,fun c member apart => ?_,fun group found => .inr fun c member own => ?_⟩
  · have fit := fits c member
    rw [if_pos apart] at fit
    exact ⟨values c,fit,holds c member⟩
  · exact ⟨ts.null,rfl,null member fun apart => apart group own found⟩

theorem covered_of_agree (agree : RowTypesAgree ts resolved) : Vacant ts resolved ∨ Covered ts resolved := by
  by_cases vacant : Vacant ts resolved
  · exact .inl vacant
  · refine .inr fun c member group own found => ?_
    obtain ⟨row,inside,null⟩ := unmatched_row vacant
    obtain ⟨v,reads,is⟩ := (mem_flatRows.mp (agree.within_flat none inside)).2 c member
    rw [null c member fun apart => apart group own found] at is
    exact Option.some.inj is ▸ reads

end Agreement

-- The union, the schema and the flat interface agree as far as `null` is in the flat
-- type of every column that the union has a `null` for.
theorem row_types_agree {V : Type} (ts : TypeScript V) (resolved : ResolvedColumns) :
    (Readable resolved → (RowTypesAgree ts resolved ↔ Vacant ts resolved ∨ Covered ts resolved)) ∧
      (RowTypesAgree ts resolved → Vacant ts resolved ∨ Covered ts resolved) :=
  ⟨fun readable => ⟨covered_of_agree,Or.rec (agree_of_vacant readable) (agree_of_covered readable)⟩,covered_of_agree⟩

section Coarse

-- A reading that tells `null` from everything else.
def solid (tsType : List Char) : List Char := tsType.filter fun c => !isSpace c

theorem solid_trimChars (tsType : List Char) : solid (trimChars tsType) = solid tsType := by
  have dropped (cs : List Char) : solid (cs.dropWhile isSpace) = solid cs := by
    induction cs with
    | nil => rfl
    | cons c cs ih =>
      by_cases space : isSpace c
      · rw [List.dropWhile_cons_of_pos space,ih]
        exact (List.filter_cons_of_neg (by simp [space])).symm
      · rw [List.dropWhile_cons_of_neg space]
  unfold trimChars
  rw [solid,List.filter_reverse]
  change (solid ((tsType.dropWhile isSpace).reverse.dropWhile isSpace)).reverse = _
  rw [dropped,solid,List.filter_reverse,List.reverse_reverse]
  exact dropped tsType

def coarseReads (tsType : List Char) : Set Bool :=
  match _parts : "|null".toList.isSuffixOf? tsType with
  | some base => insert false (coarseReads base)
  | none => if tsType = "null".toList then {false} else {true}
termination_by tsType.length
decreasing_by
  have whole := congrArg List.length (List.isSuffixOf?_eq_some_iff_append_eq.mp ‹_›)
  rw [List.length_append] at whole
  have behind : 0 < "|null".toList.length := by decide
  omega

theorem coarse_null (base : List Char) : coarseReads (base ++ "|null".toList) = insert false (coarseReads base) := by
  rw [coarseReads]
  have parts : "|null".toList.isSuffixOf? (base ++ "|null".toList) = some base :=
    List.isSuffixOf?_eq_some_iff_append_eq.mpr rfl
  split
  · rename_i is
    rw [parts] at is
    cases is
    rfl
  · rename_i is
    exact absurd (parts.symm.trans is) (Option.some_ne_none base)

theorem coarse_other (front : List Char) {c : Char} (other : c ≠ 'l') : coarseReads (front ++ [c]) = {true} := by
  have ends (text behind : List Char) (is : text ++ behind ++ ['l'] = front ++ [c]) : False :=
    other (List.singleton_inj.mp (List.append_inj' is rfl).2).symm
  rw [coarseReads]
  split
  · rename_i base is
    exact (ends base "|nul".toList
      ((List.append_assoc _ _ _).trans (List.isSuffixOf?_eq_some_iff_append_eq.mp is))).elim
  · exact if_neg fun is => ends "nul".toList [] is.symm

def coarse : TypeScript Bool where
  null := false
  array _ := {true}
  reads tsType := coarseReads (solid tsType)
  objects _ := Set.univ
  reads_null := by
    rw [show solid "null".toList = "null".toList from rfl,coarseReads]
    rfl
  trimmed tsType := congrArg coarseReads (solid_trimChars tsType)
  nullable tsType _ := by
    rw [solid,List.filter_append]
    exact coarse_null (solid tsType)
  generic tsType _ := by
    rw [solid,List.filter_append]
    exact coarse_other _ (by decide)
  brackets tsType _ := by
    rw [solid,List.filter_append]
    exact (congrArg coarseReads (List.append_assoc _ ['['] [']']).symm).trans (coarse_other _ (by decide))

def ordersColumn (name type : String) (nullable : Bool) (joinGroup : Option String) (nullableBeforeJoin : Bool) :
    ResolvedColumn :=
  ⟨name.toList,type.toList,if nullable then type.toList ++ " | null".toList else type.toList,"string".toList,nullable,
    joinGroup,nullableBeforeJoin,rfl⟩

-- SELECT u.id, o.total, o.notes FROM users u LEFT JOIN orders o ON ..., where only the
-- notes of an order may be missing.
def orders : ResolvedColumns where
  columns := [ordersColumn "id" "number" false none false,ordersColumn "total" "string" true (some "o") false,
    ordersColumn "notes" "string" true (some "o") true]
  distinct := by decide

theorem orders_agree : RowTypesAgree coarse orders := by
  have plain {tsType : List Char} (form : typeForm (trimChars tsType) = .plain) : plainType tsType := by
    rw [plainType]
    split
    all_goals rename_i is
    all_goals rw [form] at is
    all_goals cases is
  have readable : Readable orders := by
    refine List.forall_mem_cons.mpr ⟨⟨plain rfl,by decide⟩,?_⟩
    exact List.forall_mem_cons.mpr ⟨⟨plain rfl,by decide⟩,List.forall_mem_singleton.mpr ⟨plain rfl,by decide⟩⟩
  refine ((row_types_agree coarse orders).1 readable).mpr (.inr ?_)
  have wide : coarse.null ∈ coarse.reads "string | null".toList := by
    change false ∈ coarseReads ("string".toList ++ "|null".toList)
    rw [coarse_null]
    exact Set.mem_insert _ _
  refine List.forall_mem_cons.mpr ⟨fun group own => absurd own.symm (Option.some_ne_none group),?_⟩
  exact List.forall_mem_cons.mpr ⟨fun _ _ _ => wide,List.forall_mem_singleton.mpr fun _ _ _ => wide⟩

-- The same with `@nonnull total`: the union still has a `null` for it.
def nonnullOrders : ResolvedColumns where
  columns := [ordersColumn "id" "number" false none false,ordersColumn "total" "string" false (some "o") false]
  distinct := by decide

theorem nonnull_disagrees : ¬RowTypesAgree coarse nonnullOrders := by
  have narrow : coarse.reads "string".toList = {true} := coarse_other "strin".toList (by decide)
  have number : coarse.reads "number".toList = {true} := coarse_other "numbe".toList (by decide)
  have joined : Discriminated nonnullOrders.columns "o" := ⟨_,List.mem_cons_of_mem _ List.mem_cons_self,rfl,rfl⟩
  intro agree
  rcases covered_of_agree agree with vacant | covered
  · obtain ⟨c,member,apart,empty⟩ := vacant
    rcases List.mem_cons.mp member with rfl | member
    · exact Set.singleton_ne_empty true (number.symm.trans empty)
    · exact apart "o" (List.mem_singleton.mp member ▸ rfl) joined
  · have null := covered _ (List.mem_cons_of_mem _ List.mem_cons_self) "o" rfl joined
    exact Bool.false_ne_true (narrow.subset null)

end Coarse
end Scythe.RowTypes
