import Scythe.Lib.Grouping
import Scythe.SilentDiff

-- What the rows of pg_catalog lose in being described, and what the order of a hash
-- map has to do with it.
namespace Scythe.Drift
open Text Aliases Grouping

-- A relation for the catalog of a code generator, with the rows that its column
-- definitions are made of, one each.
structure CatalogRelation where
  schema : String
  relation : String
  relationKind : String
  columns : List PgColumnRow
  deriving DecidableEq,Repr

structure CatalogRelations where
  indexes : Entries Nat
  relations : List CatalogRelation

section
variable [CaseMap]

def CatalogRelations.push (state : CatalogRelations) (row : PgColumnRow) : CatalogRelations :=
  let opened : CatalogRelations := if state.indexes.contains row.qualified then state else
    ⟨state.indexes.insert row.qualified state.relations.length,
      state.relations ++ [⟨row.schemaName,row.relationName,row.relationKind,[]⟩]⟩
  match opened.indexes[row.qualified]? with
  | some index =>
    { opened with relations := opened.relations.modify index fun known => { known with columns := known.columns ++ [row] } }
  | none => opened

def catalogRelations (rows : LiveRows) : List CatalogRelation :=
  (rows.columns.foldl CatalogRelations.push ⟨∅,[]⟩).relations

def relationOf (group : RowGroup PgColumnRow) : CatalogRelation :=
  ⟨group.first.schemaName,group.first.relationName,group.first.relationKind,group.members⟩

theorem push_groups (columns : List PgColumnRow) :
    (∀ key : String,(columns.foldl CatalogRelations.push ⟨∅,[]⟩).indexes[key]? = position PgColumnRow.qualified columns key) ∧
      (columns.foldl CatalogRelations.push ⟨∅,[]⟩).relations = (groups PgColumnRow.qualified columns).map relationOf := by
  induction columns using List.reverseRecOn with
  | nil => exact ⟨fun _ => Std.TreeMap.getElem?_emptyc,rfl⟩
  | append_singleton columns row ih =>
    obtain ⟨indexes,relations⟩ := ih
    rw [List.foldl_append,List.foldl_cons,List.foldl_nil]
    generalize columns.foldl CatalogRelations.push ⟨∅,[]⟩ = state at *
    have contained : state.indexes.contains row.qualified = true ↔ Known PgColumnRow.qualified columns row.qualified := by
      rw [Std.TreeMap.contains_eq_isSome_getElem?,indexes,position_isSome]
    unfold CatalogRelations.push
    dsimp only
    by_cases known : Known PgColumnRow.qualified columns row.qualified
    · obtain ⟨place,at'⟩ := Option.isSome_iff_exists.mp (position_isSome.mpr known)
      rw [if_pos (contained.mpr known),indexes,at']
      dsimp only
      constructor
      · intro key
        rw [indexes,position_snoc_known known]
      · rw [relations,groups_snoc_known known,List.map_map]
        have changed := modify_at_position at'
          (fun i => relationOf ⟨i,columns.filter fun j => j.qualified = i.qualified⟩)
          (fun known => { known with columns := known.columns ++ [row] })
        unfold groups
        rw [List.map_map,List.map_map]
        refine changed.trans (List.map_congr_left ?_)
        intro i _
        by_cases same : i.qualified = row.qualified
        · simp [same,relationOf,RowGroup.add]
        · simp [same,relationOf]
    · rw [if_neg fun holds => known (contained.mp holds)]
      have lengths : state.relations.length = (firsts PgColumnRow.qualified columns).length := by
        rw [relations]
        simp [groups]
      have found : (state.indexes.insert row.qualified state.relations.length)[row.qualified]? = some state.relations.length := by
        rw [insert_get,if_pos rfl]
      rw [found]
      dsimp only
      constructor
      · intro key
        rw [insert_get,position_snoc_new known,indexes,lengths]
        by_cases same : row.qualified = key
        · rw [if_pos same,if_pos same.symm]
        · rw [if_neg same,if_neg (Ne.symm same)]
      · rw [groups_snoc_new known,List.map_append,← relations,List.modify_eq_take_cons_drop (by simp)]
        simp [relationOf]

theorem catalogRelations_groups (rows : LiveRows) :
    catalogRelations rows = (groups PgColumnRow.qualified rows.columns).map relationOf := (push_groups rows.columns).2

-- A relation and a composite type by the names of the rows.
def PgColumnRow.owner (row : PgColumnRow) : String × String := (row.schemaName,row.relationName)
def PgCompositeFieldRow.owner (row : PgCompositeFieldRow) : String × String := (row.schema,row.composite)

theorem PgColumnRow.owner_qualified (row : PgColumnRow) {other : PgColumnRow} (same : row.owner = other.owner) :
    row.qualified = other.qualified := by
  obtain ⟨schema,relation⟩ := Prod.mk.inj same
  unfold PgColumnRow.qualified PgColumnRow.displayName
  rw [schema,relation]

theorem PgCompositeFieldRow.owner_qualified {row other : PgCompositeFieldRow} (same : row.owner = other.owner) :
    row.qualified = other.qualified := by
  obtain ⟨schema,composite⟩ := Prod.mk.inj same
  unfold PgCompositeFieldRow.qualified PgCompositeFieldRow.displayName
  rw [schema,composite]

-- An entry for each item, of its own, that says what the item is.
structure OwnEntries {ι δ : Type} (entries : Entries δ) (items : List ι) (key : ι → String) (Describes : ι → δ → Prop) : Prop where
  each : ∀ item ∈ items,∃ value,entries[key item]? = some value ∧ Describes item value
  apart : (items.map key).Nodup

structure TableOf (rows : LiveRows) (group : RowGroup PgColumnRow) (table : TableDescription) : Prop where
  name : table.displayName = group.first.displayName
  kind : table.nullabilityIsAuthoritative = authoritativeKind group.first.relationKind
  columns : OwnEntries table.columns group.members PgColumnRow.key fun row column => column = liveColumn rows row

structure CompositeOf (rows : LiveRows) (group : RowGroup PgCompositeFieldRow) (composite : CompositeDescription) : Prop where
  name : composite.displayName = group.first.displayName
  fields : OwnEntries composite.fields group.members PgCompositeFieldRow.key fun row field => field = liveField rows row

-- The same rows, with the hash maps in another order.
structure Reordered (rows other : LiveRows) : Prop where
  fromOid : other.fromOid = rows.fromOid
  types : rows.types.entries.Perm other.types.entries
  enumLabels : rows.enumLabels.entries.Perm other.enumLabels.entries
  scope : other.scope = rows.scope
  columns : other.columns = rows.columns
  composites : other.composites = rows.composites

def tablesRegistered (rows : LiveRows) : Registered TableDescription :=
  rows.columns.foldl (register PgColumnRow.qualified PgColumnRow.bare PgColumnRow.schemaRank openTable (addColumn rows)) ⟨∅,∅⟩

def compositesRegistered (rows : LiveRows) : Registered CompositeDescription :=
  rows.composites.foldl (register PgCompositeFieldRow.qualified PgCompositeFieldRow.bare PgCompositeFieldRow.schemaRank
    openComposite (addField rows)) ⟨∅,∅⟩

def enumsRegistered (rows : LiveRows) : Registered EnumDescription :=
  ⟨ofList ScopedEnum.qualified (fun row => ⟨row.displayName,row.values⟩) (scopedEnums rows),
    (scopedEnums rows).foldl (challenge ScopedEnum.qualified ScopedEnum.bare ScopedEnum.rank) ∅⟩

-- The description has every relation, composite type and enum of the rows, each by
-- itself, and in any order of the hash maps.
structure Lossless (rows : LiveRows) : Prop where
  relations : catalogRelations rows = (groups PgColumnRow.owner rows.columns).map relationOf
  tables : OwnEntries (fetchTables rows) (groups PgColumnRow.owner rows.columns) (fun group => group.first.qualified) (TableOf rows)
  composites : OwnEntries (collectComposites rows) (groups PgCompositeFieldRow.owner rows.composites)
    (fun group => group.first.qualified) (CompositeOf rows)
  enums : OwnEntries (collectEnums rows) (scopedEnums rows) ScopedEnum.qualified
    fun row description => description = ⟨row.displayName,row.values⟩
  ordered : ∀ other,Reordered rows other → AliasedAs (tablesRegistered other) (fetchTables rows) ∧
    AliasedAs (compositesRegistered other) (collectComposites rows) ∧ AliasedAs (enumsRegistered other) (collectEnums rows)

-- No two names are confused: in lower case with a dot between the two parts of a name,
-- and for enums of one place in the scope by the last part alone.
structure NamesApart (rows : LiveRows) : Prop where
  relations : ∀ row ∈ rows.columns,∀ other ∈ rows.columns,row.qualified = other.qualified → row.owner = other.owner
  columns : ∀ row ∈ rows.columns,((rows.columns.filter fun other => other.owner = row.owner).map PgColumnRow.key).Nodup
  composites : ∀ row ∈ rows.composites,∀ other ∈ rows.composites,row.qualified = other.qualified → row.owner = other.owner
  fields : ∀ row ∈ rows.composites,
    ((rows.composites.filter fun other => other.owner = row.owner).map PgCompositeFieldRow.key).Nodup
  enums : ((scopedEnums rows).map ScopedEnum.qualified).Nodup
  aliases : ∀ row ∈ scopedEnums rows,∀ other ∈ scopedEnums rows,row.bare = other.bare → row.rank = other.rank →
    (∀ rival ∈ scopedEnums rows,rival.bare = row.bare → row.rank ≤ rival.rank) → row = other

omit [CaseMap] in
theorem lookup_reordered {α : Type} {β : α → Type} [DecidableEq α] {map other : AList β} (perm : map.entries.Perm other.entries)
    (key : α) : other.lookup key = map.lookup key := (AList.perm_lookup perm).symm

section
variable {rows other : LiveRows} (reordered : Reordered rows other)
include reordered

omit [CaseMap] in
theorem resolveType_reordered (depth oid : Nat) : resolveType other depth oid = resolveType rows depth oid := by
  induction depth generalizing oid with
  | zero => rfl
  | succ depth ih =>
    rw [resolveType,resolveType,reordered.fromOid,lookup_reordered reordered.types]
    simp only [ih]

omit [CaseMap] in
theorem resolveNeutral_reordered (depth oid : Nat) : resolveNeutralWithin other depth oid = resolveNeutralWithin rows depth oid := by
  induction depth generalizing oid with
  | zero => rfl
  | succ depth ih =>
    rw [resolveNeutralWithin,resolveNeutralWithin,reordered.fromOid,lookup_reordered reordered.types]
    simp only [ih,resolveType_reordered reordered]

omit [CaseMap] in
theorem liveType_reordered : liveType other = liveType rows := by
  funext oid
  unfold liveType resolveNeutralType
  rw [resolveNeutral_reordered reordered]

theorem tablesRegistered_reordered : tablesRegistered other = tablesRegistered rows := by
  have add : addColumn other = addColumn rows := by
    funext table row
    unfold addColumn liveColumn
    rw [liveType_reordered reordered]
  unfold tablesRegistered
  rw [add,reordered.columns]

theorem compositesRegistered_reordered : compositesRegistered other = compositesRegistered rows := by
  have add : addField other = addField rows := by
    funext composite row
    unfold addField liveField
    rw [liveType_reordered reordered]
  unfold compositesRegistered
  rw [add,reordered.composites]

omit [CaseMap] in
theorem scopedEnums_reordered : (scopedEnums other).Perm (scopedEnums rows) := by
  unfold scopedEnums
  rw [reordered.scope]
  simp only [lookup_reordered reordered.enumLabels]
  exact (reordered.types.filterMap _).symm

end

section
variable {ρ δ : Type} {qualified bare : ρ → String} {rank : ρ → Int}

omit [CaseMap] in
theorem registered_group (separate : KeysApart isQualified qualified bare) (fresh : ρ → δ) (add : δ → ρ → δ) {rows : List ρ}
    {group : RowGroup ρ} (member : group ∈ groups qualified rows) {state : Registered δ}
    (is : state = rows.foldl (register qualified bare rank fresh add) ⟨∅,∅⟩) :
    (aliased state.entries state.winners)[qualified group.first]? = some (group.members.foldl add (fresh group.first)) := by
  have opened : qualified group.first ∈ (openers qualified rows).map qualified := by
    rw [openers_keys]
    exact List.mem_map_of_mem (group_first member)
  rw [registered_counterpart separate fresh add is,counterpart_own bare rank (separate.qualified _) opened,Option.bind_some]
  unfold object
  dsimp only
  rw [← group_members member,group_head member]
  rfl

omit [CaseMap] in
theorem groups_apart (rows : List ρ) : ((groups qualified rows).map fun group => qualified group.first).Nodup := by
  have distinct : ((firsts qualified rows).map qualified).Nodup := firsts_nodup rows
  unfold groups
  rw [List.map_map]
  exact distinct

end

section
variable {rows : LiveRows} (keeps : KeepsDots)
include keeps

theorem tables_own (names : NamesApart rows) : OwnEntries (fetchTables rows) (groups PgColumnRow.owner rows.columns)
    (fun group => group.first.qualified) (TableOf rows) := by
  have same : groups PgColumnRow.owner rows.columns = groups PgColumnRow.qualified rows.columns := by
    apply groups_congr
    intro row member other among
    exact ⟨row.owner_qualified,names.relations row member other among⟩
  constructor
  · intro group member
    have own := group_members member
    have first := names.columns group.first (group_first member)
    rw [← own] at first
    rw [same] at member
    refine ⟨_,registered_group (tables_separate keeps) openTable (addColumn rows) member rfl,?_⟩
    rw [columns_added]
    refine ⟨rfl,rfl,?_,first⟩
    intro row inside
    refine ⟨liveColumn rows row,?_,rfl⟩
    have columns : (ofList PgColumnRow.key (liveColumn rows) group.members)[row.key]? = _ := ofList_get _ _
    rw [last_own first inside] at columns
    exact columns
  · rw [same]
    exact groups_apart rows.columns

theorem composites_own (names : NamesApart rows) : OwnEntries (collectComposites rows)
    (groups PgCompositeFieldRow.owner rows.composites) (fun group => group.first.qualified) (CompositeOf rows) := by
  have same : groups PgCompositeFieldRow.owner rows.composites = groups PgCompositeFieldRow.qualified rows.composites := by
    apply groups_congr
    intro row member other among
    exact ⟨PgCompositeFieldRow.owner_qualified,names.composites row member other among⟩
  constructor
  · intro group member
    have own := group_members member
    have first := names.fields group.first (group_first member)
    rw [← own] at first
    rw [same] at member
    refine ⟨_,registered_group (composites_separate keeps) openComposite (addField rows) member rfl,?_⟩
    rw [fields_added]
    refine ⟨rfl,?_,first⟩
    intro row inside
    refine ⟨liveField rows row,?_,rfl⟩
    have fields : (ofList PgCompositeFieldRow.key (liveField rows) group.members)[row.key]? = _ := ofList_get _ _
    rw [last_own first inside] at fields
    exact fields
  · rw [same]
    exact groups_apart rows.composites

-- What a key of an enum finds.
theorem collectEnums_get (key : String) : (collectEnums rows)[key]? =
    (counterpart isQualified ScopedEnum.qualified ScopedEnum.bare ScopedEnum.rank key (scopedEnums rows)).bind fun found =>
      (last ScopedEnum.qualified found (scopedEnums rows)).map fun row => ⟨row.displayName,row.values⟩ := by
  unfold collectEnums
  dsimp only
  rw [aliased_counterpart (enums_separate keeps)]
  · simp only [ofList_get]
  · intro key
    rw [ofList_get,Option.isSome_map,last_isSome,List.mem_map]

theorem enums_own (distinct : ((scopedEnums rows).map ScopedEnum.qualified).Nodup) :
    OwnEntries (collectEnums rows) (scopedEnums rows) ScopedEnum.qualified
      fun row description => description = ⟨row.displayName,row.values⟩ := by
  refine ⟨?_,distinct⟩
  intro row member
  refine ⟨⟨row.displayName,row.values⟩,?_,rfl⟩
  have own := counterpart_own ScopedEnum.bare ScopedEnum.rank ((enums_separate keeps).qualified row)
    (List.mem_map_of_mem member : row.qualified ∈ (scopedEnums rows).map ScopedEnum.qualified)
  rw [collectEnums_get keeps,own,Option.bind_some,last_own distinct member]
  rfl

theorem enumsRegistered_apart (rows : LiveRows) : AliasesApart isQualified (enumsRegistered rows) := by
  apply challenged_apart (enums_separate keeps)
  intro row member
  rw [ofList_get,Option.isSome_map,last_isSome]
  exact ⟨row,member,rfl⟩

-- Of enums no two of which tie, the best is the same in any order.
omit keeps in
theorem best_reordered (names : NamesApart rows) {enums : List ScopedEnum} (perm : enums.Perm (scopedEnums rows)) (wanted : String) :
    best ScopedEnum.bare ScopedEnum.rank wanted enums = best ScopedEnum.bare ScopedEnum.rank wanted (scopedEnums rows) := by
  cases found : best ScopedEnum.bare ScopedEnum.rank wanted (scopedEnums rows) with
  | none =>
    apply Option.not_isSome_iff_eq_none.mp
    intro held
    obtain ⟨row,member,same⟩ := (best_isSome _).mp held
    have other := (best_isSome ScopedEnum.rank).mpr ⟨row,perm.mem_iff.mp member,same⟩
    rw [found] at other
    cases other
  | some row =>
    obtain ⟨member,same⟩ := best_some found
    obtain ⟨other,is⟩ := Option.isSome_iff_exists.mp ((best_isSome _).mpr ⟨row,perm.mem_iff.mpr member,same⟩)
    obtain ⟨among,same'⟩ := best_some is
    have least := best_least found
    have least' := best_least is
    have behind := least other (perm.mem_iff.mp among) same'
    have before := least' row (perm.mem_iff.mpr member) same
    rw [is,names.aliases row member other (perm.mem_iff.mp among) (same.trans same'.symm) (by omega) fun rival inside alike =>
      least rival inside (alike.trans same)]

theorem collectEnums_reordered (names : NamesApart rows) {other : LiveRows} (reordered : Reordered rows other) (key : String) :
    (collectEnums other)[key]? = (collectEnums rows)[key]? := by
  have perm := scopedEnums_reordered reordered
  have distinct : ((scopedEnums other).map ScopedEnum.qualified).Nodup := (perm.map _).nodup_iff.mpr names.enums
  have found : ∀ wanted,last ScopedEnum.qualified wanted (scopedEnums other) = last ScopedEnum.qualified wanted (scopedEnums rows) := by
    intro wanted
    cases is : last ScopedEnum.qualified wanted (scopedEnums other) with
    | none =>
      apply Eq.symm
      apply Option.not_isSome_iff_eq_none.mp
      intro held
      obtain ⟨row,member,same⟩ := last_isSome.mp held
      have other := last_isSome.mpr ⟨row,perm.mem_iff.mpr member,same⟩
      rw [is] at other
      cases other
    | some row =>
      obtain ⟨member,rfl⟩ := last_some is
      exact (last_own names.enums (perm.mem_iff.mp member)).symm
  have winner : counterpart isQualified ScopedEnum.qualified ScopedEnum.bare ScopedEnum.rank key (scopedEnums other) =
      counterpart isQualified ScopedEnum.qualified ScopedEnum.bare ScopedEnum.rank key (scopedEnums rows) := by
    unfold counterpart
    rw [best_reordered names perm]
    simp only [(perm.map ScopedEnum.qualified).mem_iff]
  rw [collectEnums_get keeps,collectEnums_get keeps,winner]
  simp only [found]

-- The bare name of enums that tie goes to the one that the map has first.
theorem alias_first (distinct : ((scopedEnums rows).map ScopedEnum.qualified).Nodup) {row : ScopedEnum}
    (member : row ∈ scopedEnums rows) (least : ∀ rival ∈ scopedEnums rows,rival.bare = row.bare → row.rank ≤ rival.rank) :
    ∃ other,Reordered rows other ∧ (collectEnums other)[row.bare]? = some ⟨row.displayName,row.values⟩ := by
  obtain ⟨entry,inside,is⟩ := List.mem_filterMap.mp member
  have perm : rows.types.entries.Perm (entry :: rows.types.entries.erase entry) := List.perm_cons_erase inside
  have keys : (entry :: rows.types.entries.erase entry).NodupKeys := (List.perm_nodupKeys perm).mp rows.types.nodupKeys
  refine ⟨{ rows with types := ⟨_,keys⟩ },⟨rfl,perm,List.Perm.refl _,rfl,rfl,rfl⟩,?_⟩
  have reordered : Reordered rows { rows with types := ⟨_,keys⟩ } := ⟨rfl,perm,List.Perm.refl _,rfl,rfl,rfl⟩
  have same := scopedEnums_reordered reordered
  have front : ∃ others,scopedEnums { rows with types := ⟨_,keys⟩ } = row :: others :=
    ⟨_,List.filterMap_cons_some is⟩
  obtain ⟨others,first⟩ := front
  have distinct' : ((scopedEnums { rows with types := ⟨_,keys⟩ }).map ScopedEnum.qualified).Nodup :=
    (same.map _).nodup_iff.mpr distinct
  have winner : best ScopedEnum.bare ScopedEnum.rank row.bare (scopedEnums { rows with types := ⟨_,keys⟩ }) = some row := by
    rw [first]
    apply best_first
    intro rival among alike
    exact least rival (same.mem_iff.mp (first ▸ List.mem_cons_of_mem _ among)) alike
  have plain : ¬isQualified row.bare = true := (enums_separate keeps).bare row
  rw [collectEnums_get keeps]
  unfold counterpart
  rw [if_neg plain,winner,Option.map_some,Option.bind_some,last_own distinct' (first ▸ List.mem_cons_self)]
  rfl

theorem lossless_names (lossless : Lossless rows) : NamesApart rows := by
  constructor
  · intro row member other among same
    have members : (groups PgColumnRow.qualified rows.columns).map (·.members) =
        (groups PgColumnRow.owner rows.columns).map (·.members) := by
      have whole := (catalogRelations_groups rows).symm.trans lossless.relations
      have columns := congrArg (List.map CatalogRelation.columns) whole
      rw [List.map_map,List.map_map] at columns
      exact columns
    obtain ⟨group,inside,first,second⟩ := (same_group_iff member among).mp same
    have known : group.members ∈ (groups PgColumnRow.owner rows.columns).map (·.members) :=
      members ▸ List.mem_map_of_mem inside
    obtain ⟨group',inside',is⟩ := List.mem_map.mp known
    exact (same_group_iff member among).mpr ⟨group',inside',is ▸ first,is ▸ second⟩
  · intro row member
    obtain ⟨group,inside,_,own⟩ := group_of PgColumnRow.owner member
    obtain ⟨table,_,describes⟩ := lossless.tables.each group inside
    rw [← own]
    exact describes.columns.apart
  · intro row member other among same
    obtain ⟨group,inside,first,_⟩ := group_of PgCompositeFieldRow.owner member
    obtain ⟨group',inside',first',_⟩ := group_of PgCompositeFieldRow.owner among
    have keys : group.first.qualified = group'.first.qualified := by
      rw [PgCompositeFieldRow.owner_qualified first,PgCompositeFieldRow.owner_qualified first',same]
    rw [← first,← first',List.inj_on_of_nodup_map lossless.composites.apart inside inside' keys]
  · intro row member
    obtain ⟨group,inside,_,own⟩ := group_of PgCompositeFieldRow.owner member
    obtain ⟨composite,_,describes⟩ := lossless.composites.each group inside
    rw [← own]
    exact describes.fields.apart
  · exact lossless.enums.apart
  · intro row member other among alike tie least
    have distinct := lossless.enums.apart
    have least' : ∀ rival ∈ scopedEnums rows,rival.bare = other.bare → other.rank ≤ rival.rank := by
      intro rival inside same
      have behind := least rival inside (same.trans alike.symm)
      omega
    obtain ⟨left,reordered,found⟩ := alias_first keeps distinct member least
    obtain ⟨right,reordered',found'⟩ := alias_first keeps distinct among least'
    have first := (lossless.ordered left reordered).2.2 _ (List.Perm.refl _) row.bare
    have second := (lossless.ordered right reordered').2.2 _ (List.Perm.refl _) row.bare
    have same : some (⟨row.displayName,row.values⟩ : EnumDescription) = some ⟨other.displayName,other.values⟩ := by
      rw [← found,← found',← alike]
      exact first.trans second.symm
    have names : row.qualified = other.qualified :=
      congrArg CaseMap.lowercase (EnumDescription.mk.inj (Option.some.inj same)).1
    exact List.inj_on_of_nodup_map distinct member among names

theorem names_lossless (names : NamesApart rows) : Lossless rows := by
  refine ⟨?_,tables_own keeps names,composites_own keeps names,enums_own keeps names.enums,?_⟩
  · rw [catalogRelations_groups]
    congr 1
    apply groups_congr
    intro row member other among
    exact ⟨names.relations row member other among,row.owner_qualified⟩
  · intro other reordered
    refine ⟨?_,?_,?_⟩
    · have any := aliased_any (registered_apart PgColumnRow.schemaRank (tables_separate keeps) openTable (addColumn rows) rows.columns)
      rw [tablesRegistered_reordered reordered]
      exact any
    · have any := aliased_any (registered_apart PgCompositeFieldRow.schemaRank (composites_separate keeps) openComposite (addField rows)
        rows.composites)
      rw [compositesRegistered_reordered reordered]
      exact any
    · intro items perm key
      have any := aliased_any (enumsRegistered_apart keeps other) items perm key
      exact any.trans (collectEnums_reordered keeps names reordered key)

end

end

section Confused
local instance liveCase : CaseMap := ascii

def letterCaseRows : LiveRows :=
  integerRows [requiredRow "public" "Users" "id" 23,requiredRow "public" "users" "email" 23]

end Confused

end Scythe.Drift
