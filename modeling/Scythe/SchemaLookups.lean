import Mathlib.Data.Finset.Max
import Scythe.SchemaFingerprint

-- What two catalogs with one canonical form answer to the names asked for.
namespace Scythe.SchemaFingerprint
open Text Delimited

theorem strip_bare {key : String} (bare : contains key "." = false) : stripLeadingQualifier key = key := by
  unfold contains at bare
  unfold stripLeadingQualifier splitOnce
  rw [show ".".toList = ['.'] from rfl] at bare
  rw [Option.not_isSome_iff_eq_none.mp (Bool.eq_false_iff.mp bare)]
  rfl

theorem strip_shorter {key : String} (dotted : contains key "." = true) :
    (stripLeadingQualifier key).toList.length < key.toList.length := by
  unfold contains at dotted
  rw [show ".".toList = ['.'] from rfl] at dotted
  obtain ⟨⟨before,after⟩,found⟩ := Option.isSome_iff_exists.mp dotted
  unfold stripLeadingQualifier splitOnce
  rw [found,splitFirst_eq found]
  simp only [Option.map_some,String.toList_ofList,List.length_append,List.length_cons,List.length_nil]
  omega

section Entries
variable {δ : Type} {xs ys : List (String × δ)}

def strippedKeys (entries : List (String × δ)) : List String := entries.map fun entry => stripLeadingQualifier entry.1

theorem canonicalEntries_stripped (apart : (strippedKeys xs).Nodup) :
    (canonicalEntries xs).Perm (xs.map fun entry => (stripLeadingQualifier entry.1,entry.2)) := by
  have keys : ((xs.map fun entry => (stripLeadingQualifier entry.1,entry.2)).map (·.1)).Nodup := by
    rw [List.map_map]
    exact apart
  unfold canonicalEntries
  dsimp only
  rw [if_pos keys]
  exact sortBy_perm Prod.fst _

theorem canonicalEntries_raw (clash : ¬(strippedKeys xs).Nodup) : (canonicalEntries xs).Perm xs := by
  have keys : ¬((xs.map fun entry => (stripLeadingQualifier entry.1,entry.2)).map (·.1)).Nodup := by
    rw [List.map_map]
    exact clash
  unfold canonicalEntries
  dsimp only
  rw [if_neg keys]
  exact sortBy_perm Prod.fst _

theorem canonicalKeys_stripped (apart : (strippedKeys xs).Nodup) (key : String) :
    key ∈ (canonicalEntries xs).map Prod.fst ↔ ∃ registered ∈ xs.map Prod.fst,stripLeadingQualifier registered = key := by
  rw [((canonicalEntries_stripped apart).map Prod.fst).mem_iff]
  simp only [List.map_map,List.mem_map,Function.comp_apply,exists_exists_and_eq_and]

theorem canonicalKeys_raw (clash : ¬(strippedKeys xs).Nodup) (key : String) :
    key ∈ (canonicalEntries xs).map Prod.fst ↔ key ∈ xs.map Prod.fst :=
  ((canonicalEntries_raw clash).map Prod.fst).mem_iff

theorem stripped_unique (apart : (strippedKeys xs).Nodup) {key other : String} (left : key ∈ xs.map Prod.fst)
    (right : other ∈ xs.map Prod.fst) (same : stripLeadingQualifier key = stripLeadingQualifier other) : key = other := by
  obtain ⟨entry,first,rfl⟩ := List.mem_map.mp left
  obtain ⟨entry',second,rfl⟩ := List.mem_map.mp right
  rw [List.inj_on_of_nodup_map apart first second same]

-- With the same keys, the entries stand under one and the same of them.
theorem entries_same (distinct : (xs.map Prod.fst).Nodup) (distinctOther : (ys.map Prod.fst).Nodup)
    (keys : ∀ key,key ∈ xs.map Prod.fst ↔ key ∈ ys.map Prod.fst) (equal : canonicalEntries xs = canonicalEntries ys) :
    ∀ entry,entry ∈ xs → entry ∈ ys := by
  have perm : (xs.map Prod.fst).Perm (ys.map Prod.fst) := (List.perm_ext_iff_of_nodup distinct distinctOther).mpr keys
  have stripped : (strippedKeys xs).Perm (strippedKeys ys) := by
    have mapped := perm.map stripLeadingQualifier
    rw [List.map_map,List.map_map] at mapped
    exact mapped
  intro entry member
  by_cases apart : (strippedKeys xs).Nodup
  · have apartOther := stripped.nodup_iff.mp apart
    have among : (stripLeadingQualifier entry.1,entry.2) ∈ ys.map fun entry => (stripLeadingQualifier entry.1,entry.2) := by
      rw [← (canonicalEntries_stripped apartOther).mem_iff,← equal,(canonicalEntries_stripped apart).mem_iff]
      exact List.mem_map_of_mem member
    obtain ⟨other,inside,is⟩ := List.mem_map.mp among
    rw [Prod.mk.injEq] at is
    have same := stripped_unique apartOther (List.mem_map_of_mem inside)
      ((keys _).mp (List.mem_map_of_mem member)) is.1
    have whole : other = entry := Prod.ext same is.2
    rw [← whole]
    exact inside
  · have clash : ¬(strippedKeys ys).Nodup := fun apartOther => apart (stripped.nodup_iff.mpr apartOther)
    rw [← (canonicalEntries_raw clash).mem_iff,← equal,(canonicalEntries_raw apart).mem_iff]
    exact member

-- Where keys are stripped on one side only, no qualified key is on both sides: the
-- longest of them would come from a longer one.
theorem raw_undotted (apart : (strippedKeys xs).Nodup) (clash : ¬(strippedKeys ys).Nodup)
    (dotted : ∀ key,contains key "." = true → (key ∈ xs.map Prod.fst ↔ key ∈ ys.map Prod.fst))
    (equal : (canonicalEntries xs).map Prod.fst = (canonicalEntries ys).map Prod.fst) :
    ∀ key ∈ ys.map Prod.fst,contains key "." = false := by
  by_contra some'
  push Not at some'
  obtain ⟨key,member,qualified⟩ := some'
  let qualifiedKeys := (ys.map Prod.fst).toFinset.filter fun key => contains key "." = true
  have among : ∀ key,key ∈ qualifiedKeys ↔ key ∈ ys.map Prod.fst ∧ contains key "." = true := by
    intro key
    rw [Finset.mem_filter,List.mem_toFinset]
  have nonempty : qualifiedKeys.Nonempty := ⟨key,(among key).mpr ⟨member,Bool.eq_true_of_not_eq_false qualified⟩⟩
  obtain ⟨longest,inside,most⟩ := Finset.exists_max_image qualifiedKeys (fun key => key.toList.length) nonempty
  obtain ⟨registered,isDotted⟩ := (among longest).mp inside
  rw [← canonicalKeys_raw clash,← equal,canonicalKeys_stripped apart] at registered
  obtain ⟨source,known,is⟩ := registered
  cases sourceDotted : contains source "." with
  | false =>
    rw [strip_bare sourceDotted] at is
    rw [← is,sourceDotted] at isDotted
    cases isDotted
  | true =>
    have bound := most source ((among source).mpr ⟨(dotted source sourceDotted).mp known,sourceDotted⟩)
    have shorter := strip_shorter sourceDotted
    rw [is] at shorter
    omega

theorem bare_known (apart : (strippedKeys xs).Nodup) (apartOther : (strippedKeys ys).Nodup)
    (dotted : ∀ key,contains key "." = true → (key ∈ xs.map Prod.fst ↔ key ∈ ys.map Prod.fst))
    (equal : (canonicalEntries xs).map Prod.fst = (canonicalEntries ys).map Prod.fst) {key : String}
    (bare : contains key "." = false) (known : key ∈ xs.map Prod.fst) : key ∈ ys.map Prod.fst := by
  have canonical : key ∈ (canonicalEntries ys).map Prod.fst := by
    rw [← equal,canonicalKeys_stripped apart]
    exact ⟨key,known,strip_bare bare⟩
  obtain ⟨source,registered,is⟩ := (canonicalKeys_stripped apartOther key).mp canonical
  cases sourceDotted : contains source "." with
  | false =>
    rw [strip_bare sourceDotted] at is
    rw [← is]
    exact registered
  | true =>
    have both := (dotted source sourceDotted).mpr registered
    have same := stripped_unique apart both known (is.trans (strip_bare bare).symm)
    rw [same,bare] at sourceDotted
    cases sourceDotted

theorem undotted_apart (distinct : (ys.map Prod.fst).Nodup) (bare : ∀ key ∈ ys.map Prod.fst,contains key "." = false) :
    (strippedKeys ys).Nodup := by
  have same : strippedKeys ys = ys.map Prod.fst := by
    apply List.map_congr_left
    intro entry member
    exact strip_bare (bare _ (List.mem_map_of_mem member))
  rw [same]
  exact distinct

-- The qualified keys and the text determine the other ones.
theorem keys_same (distinct : (xs.map Prod.fst).Nodup) (distinctOther : (ys.map Prod.fst).Nodup)
    (dotted : ∀ key,contains key "." = true → (key ∈ xs.map Prod.fst ↔ key ∈ ys.map Prod.fst))
    (equal : (canonicalEntries xs).map Prod.fst = (canonicalEntries ys).map Prod.fst) (key : String) :
    key ∈ xs.map Prod.fst ↔ key ∈ ys.map Prod.fst := by
  have back : ∀ key,contains key "." = true → (key ∈ ys.map Prod.fst ↔ key ∈ xs.map Prod.fst) :=
    fun key qualified => (dotted key qualified).symm
  by_cases apart : (strippedKeys xs).Nodup
  · by_cases apartOther : (strippedKeys ys).Nodup
    · cases qualified : contains key "." with
      | true => exact dotted key qualified
      | false => exact ⟨bare_known apart apartOther dotted equal qualified,
          bare_known apartOther apart back equal.symm qualified⟩
    · exact absurd (undotted_apart distinctOther (raw_undotted apart apartOther dotted equal)) apartOther
  · by_cases apartOther : (strippedKeys ys).Nodup
    · exact absurd (undotted_apart distinct (raw_undotted apartOther apart back equal.symm)) apart
    · rw [← canonicalKeys_raw apart,equal,canonicalKeys_raw apartOther]

end Entries

section Registered
variable {α δ : Type}

theorem mem_entriesOf {map : AHashMap α} {key : String} {value : α} :
    (key,value) ∈ entriesOf map ↔ map.lookup key = some value := by
  rw [show (map.lookup key = some value) = (value ∈ map.lookup key) from rfl,AList.mem_lookup_iff]
  unfold entriesOf
  constructor
  · intro member
    obtain ⟨entry,inside,is⟩ := List.mem_map.mp member
    cases is
    exact inside
  · intro inside
    exact List.mem_map_of_mem (f := fun entry : Σ _ : String, α => (entry.1,entry.2)) inside

theorem mem_keysOf {map : AHashMap α} {key : String} : key ∈ (entriesOf map).map Prod.fst ↔ key ∈ map := by
  unfold entriesOf
  rw [List.map_map,AList.mem_keys]
  rfl

def held (f : α → δ) (map : AHashMap α) : List (String × δ) := (entriesOf map).map (Prod.map id f)

theorem held_keys (f : α → δ) (map : AHashMap α) : (held f map).map Prod.fst = (entriesOf map).map Prod.fst := by
  unfold held
  rw [List.map_map]
  rfl

theorem held_distinct (f : α → δ) (map : AHashMap α) : ((held f map).map Prod.fst).Nodup := by
  rw [held_keys]
  exact entriesOf_distinct map

theorem mem_held {f : α → δ} {map : AHashMap α} {key : String} {value : δ} :
    (key,value) ∈ held f map ↔ ∃ held,map.lookup key = some held ∧ f held = value := by
  unfold held
  rw [List.mem_map]
  constructor
  · intro member
    obtain ⟨⟨key',value'⟩,inside,is⟩ := member
    cases is
    exact ⟨value',mem_entriesOf.mp inside,rfl⟩
  · intro found
    obtain ⟨value',found,is⟩ := found
    exact ⟨(key,value'),mem_entriesOf.mpr found,by rw [Prod.map,is]; rfl⟩

-- What two maps of one canonical text hold under a name that both have.
theorem held_same {f : α → δ} {a b : AHashMap α} (names : ∀ key,key ∈ a ↔ key ∈ b)
    (equal : canonicalEntries (held f a) = canonicalEntries (held f b)) {key : String} {x y : α}
    (left : a.lookup key = some x) (right : b.lookup key = some y) : f x = f y := by
  have keys : ∀ key,key ∈ (held f a).map Prod.fst ↔ key ∈ (held f b).map Prod.fst := by
    intro key
    rw [held_keys,held_keys,mem_keysOf,mem_keysOf]
    exact names key
  have inside := entries_same (held_distinct f a) (held_distinct f b) keys equal _ (mem_held.mpr ⟨x,left,rfl⟩)
  obtain ⟨other,found,is⟩ := mem_held.mp inside
  rw [right] at found
  cases found
  exact is.symm

theorem names_same {f : α → δ} {a b : AHashMap α}
    (dotted : ∀ key,contains key "." = true → (key ∈ a ↔ key ∈ b))
    (equal : canonicalEntries (held f a) = canonicalEntries (held f b)) (key : String) : key ∈ a ↔ key ∈ b := by
  have keys : ∀ (map : AHashMap α) key,key ∈ (held f map).map Prod.fst ↔ key ∈ map := by
    intro map key
    rw [held_keys,mem_keysOf]
  rw [← keys a,← keys b]
  apply keys_same (held_distinct f a) (held_distinct f b) ?_ (congrArg (List.map Prod.fst) equal)
  intro key qualified
  rw [keys,keys]
  exact dotted key qualified

end Registered

section Lookups
variable [CaseMap] {α γ δ : Type}

-- The key that a name without a qualifier or an entry of its own leads to.
def reachedKey (map : AHashMap α) (searchPath : Option (List String)) (lower : String) : Option String :=
  match searchPath with
  | some schemas => (schemas.map fun schema => schema ++ "." ++ lower).find? fun key => (map.lookup key).isSome
  | none => suffixKey map.keys ("." ++ lower)

def reached (map : AHashMap α) (searchPath : Option (List String)) (lower : String) : Option α :=
  (reachedKey map searchPath lower).bind map.lookup

theorem lookupQualified_eq (map : AHashMap α) (name : String) (searchPath : Option (List String)) :
    lookupQualified map name searchPath =
      match map.lookup (CaseMap.lowercase name) with
      | some value => some value
      | none => if contains (CaseMap.lowercase name) "." then none else
          reached map searchPath (CaseMap.lowercase name) := by
  have first : ∀ keys : List String,keys.findSome? map.lookup =
      (keys.find? fun key => (map.lookup key).isSome).bind map.lookup := by
    intro keys
    induction keys with
    | nil => rfl
    | cons key keys ih =>
      rw [List.findSome?_cons,List.find?_cons]
      cases found : map.lookup key with
      | none => exact ih
      | some value => exact found.symm
  unfold lookupQualified reached reachedKey
  dsimp only
  cases map.lookup (CaseMap.lowercase name) with
  | some value => rfl
  | none =>
    cases contains (CaseMap.lowercase name) "." with
    | true => rfl
    | false =>
      cases searchPath with
      | none => rfl
      | some schemas =>
        dsimp only
        rw [← first,List.findSome?_map]
        rfl

-- The same answer to every name.
def Answers (content : α → γ) (a b : AHashMap α) (path pathOther : Option (List String)) : Prop :=
  ∀ name,(lookupQualified a name path).map content = (lookupQualified b name pathOther).map content

-- The same names are registered, for contents that are alike. A name without a
-- qualifier that is not among them leads to the same content on both sides.
structure Alike (alike : α → α → Prop) (content : α → γ) (a b : AHashMap α) (path pathOther : Option (List String)) :
    Prop where
  names : ∀ key,key ∈ a ↔ key ∈ b
  contents : ∀ key,∀ x ∈ a.lookup key,∀ y ∈ b.lookup key,alike x y
  bare : ∀ name,contains (CaseMap.lowercase name) "." = false → CaseMap.lowercase name ∉ a →
    (reached a path (CaseMap.lowercase name)).map content = (reached b pathOther (CaseMap.lowercase name)).map content

variable {alike : α → α → Prop} {content : α → γ} {f : α → δ} {a b : AHashMap α} {path pathOther : Option (List String)}

theorem alike_answers (same : ∀ x y,f x = f y → (alike x y ↔ content x = content y))
    (equal : canonicalEntries (held f a) = canonicalEntries (held f b)) (agree : Alike alike content a b path pathOther) :
    Answers content a b path pathOther := by
  intro name
  rw [lookupQualified_eq,lookupQualified_eq]
  cases left : a.lookup (CaseMap.lowercase name) with
  | some x =>
    have known := (agree.names _).mp (AList.lookup_isSome.mp (Option.isSome_iff_exists.mpr ⟨x,left⟩))
    obtain ⟨y,right⟩ := Option.isSome_iff_exists.mp (AList.lookup_isSome.mpr known)
    rw [right]
    have alike := agree.contents _ x left y right
    exact congrArg some ((same x y (held_same agree.names equal left right)).mp alike)
  | none =>
    have absent := AList.lookup_eq_none.mp left
    rw [AList.lookup_eq_none.mpr fun known => absent ((agree.names _).mpr known)]
    dsimp only
    cases qualified : contains (CaseMap.lowercase name) "." with
    | true => rfl
    | false => exact agree.bare name qualified absent

theorem answers_alike (same : ∀ x y,f x = f y → (alike x y ↔ content x = content y))
    (equal : canonicalEntries (held f a) = canonicalEntries (held f b))
    (asked : ∀ key ∈ a,∃ name,CaseMap.lowercase name = key) (askedOther : ∀ key ∈ b,∃ name,CaseMap.lowercase name = key)
    (answers : Answers content a b path pathOther) : Alike alike content a b path pathOther := by
  have dotted : ∀ key,contains key "." = true → (key ∈ a ↔ key ∈ b) := by
    intro key qualified
    have exact' : ∀ name,CaseMap.lowercase name = key → (key ∈ a ↔ key ∈ b) := by
      intro name is
      have both := answers name
      rw [lookupQualified_eq,lookupQualified_eq,is] at both
      rw [← AList.lookup_isSome,← AList.lookup_isSome]
      cases left : a.lookup key <;> cases right : b.lookup key <;> simp [left,right,qualified] at both ⊢
    constructor
    · intro known
      obtain ⟨name,is⟩ := asked key known
      exact (exact' name is).mp known
    · intro known
      obtain ⟨name,is⟩ := askedOther key known
      exact (exact' name is).mpr known
  have names := names_same dotted equal
  refine ⟨names,?_,?_⟩
  · intro key x left y right
    obtain ⟨name,is⟩ := asked key (AList.lookup_isSome.mp (Option.isSome_iff_exists.mpr ⟨x,left⟩))
    have both := answers name
    rw [lookupQualified_eq,lookupQualified_eq,is,left,right] at both
    exact (same x y (held_same names equal left right)).mpr (Option.some.inj both)
  · intro name qualified absent
    have both := answers name
    have absentOther := fun known => absent ((names _).mpr known)
    rw [lookupQualified_eq,lookupQualified_eq,AList.lookup_eq_none.mpr absent,AList.lookup_eq_none.mpr absentOther] at both
    dsimp only at both
    rw [qualified] at both
    exact both

end Lookups

section Paths
variable [CaseMap] {α γ δ : Type}

-- Under one search path the last condition follows from the others.
theorem alike_of_path {alike : α → α → Prop} {content : α → γ} {f : α → δ} {a b : AHashMap α}
    (same : ∀ x y,f x = f y → (alike x y ↔ content x = content y))
    (equal : canonicalEntries (held f a) = canonicalEntries (held f b)) (names : ∀ key,key ∈ a ↔ key ∈ b)
    (contents : ∀ key,∀ x ∈ a.lookup key,∀ y ∈ b.lookup key,alike x y) (path : Option (List String)) :
    Alike alike content a b path path := by
  have known : ∀ key,(a.lookup key).isSome = (b.lookup key).isSome := by
    intro key
    rw [Bool.eq_iff_iff,AList.lookup_isSome,AList.lookup_isSome]
    exact names key
  have keys : a.keys.Perm b.keys := (List.perm_ext_iff_of_nodup a.keys_nodup b.keys_nodup).mpr names
  refine ⟨names,contents,?_⟩
  intro name _ _
  have reachedSame : reachedKey a path (CaseMap.lowercase name) = reachedKey b path (CaseMap.lowercase name) := by
    unfold reachedKey suffixKey
    cases path with
    | some schemas => simp only [known]
    | none => exact smallest_perm (keys.filter _)
  unfold reached
  rw [reachedSame]
  cases reachedKey b path (CaseMap.lowercase name) with
  | none => rfl
  | some key =>
    have both := known key
    simp only [Option.bind_some]
    cases left : a.lookup key with
    | none =>
      rw [left] at both
      rw [Option.isSome_eq_false_iff.mp both.symm |> Option.isNone_iff_eq_none.mp]
    | some x =>
      rw [left] at both
      obtain ⟨y,right⟩ := Option.isSome_iff_exists.mp both.symm
      rw [right]
      exact congrArg some ((same x y (held_same names equal left right)).mp (contents key x left y right))

-- The lookups of the analyzer, by what the analyzer reads of their answers.
def SameLookups (a b : Catalog) : Prop := ∀ name,
  (a.getTable name).map (·.columns.map columnShape) = (b.getTable name).map (·.columns.map columnShape) ∧
    (a.getEnum name).map (·.values) = (b.getEnum name).map (·.values) ∧
    (a.getComposite name).map (·.fields) = (b.getComposite name).map (·.fields) ∧
    a.getDomainBaseType name = b.getDomainBaseType name

def SameLabelling (x y : EnumType) : Prop := x.values = [] ↔ y.values = []

structure SameNames (a b : Catalog) : Prop where
  tables : Alike (fun _ _ => True) (·.columns.map columnShape) a.tables b.tables a.searchPath b.searchPath
  enums : Alike SameLabelling (·.values) a.enums b.enums a.searchPath b.searchPath
  composites : Alike (fun _ _ => True) (·.fields) a.composites b.composites a.searchPath b.searchPath
  domains : Alike (fun _ _ => True) (·.baseType) a.domains b.domains a.searchPath b.searchPath

-- Every registered name can be asked for.
structure AllAsked (catalog : Catalog) : Prop where
  tables : ∀ key ∈ catalog.tables,∃ name,CaseMap.lowercase name = key
  enums : ∀ key ∈ catalog.enums,∃ name,CaseMap.lowercase name = key
  composites : ∀ key ∈ catalog.composites,∃ name,CaseMap.lowercase name = key
  domains : ∀ key ∈ catalog.domains,∃ name,CaseMap.lowercase name = key

omit [CaseMap] in
theorem blurLabels_iff {labels others : List String} (blurred : blurLabels labels = blurLabels others) :
    (labels = [] ↔ others = []) ↔ labels = others := by
  cases labels <;> cases others <;> simp_all [blurLabels]

end Paths

section Qualified
local instance lookupCase : CaseMap := ascii

def usersTable (default : Option String) : Table := ⟨[⟨"id","integer",false,default,true⟩],"users"⟩

def withTable (key : String) (table : Table) : InspectedCatalog :=
  { Catalog.new .postgreSQL with tables := (∅ : AHashMap Table).insert key table }.uninspected

end Qualified

end Scythe.SchemaFingerprint
