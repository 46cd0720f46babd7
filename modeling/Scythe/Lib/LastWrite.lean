import Mathlib.Data.List.AList

-- Entries written to a map one after another. Under each key stays the value
-- of the last entry that has it.
namespace LastWrite

variable {κ α : Type}

-- The entry is among the writes, and no later one has its key.
def Stands (writes : List (κ × α)) (entry : κ × α) : Prop :=
  ∃ before after,writes = before ++ entry :: after ∧ ∀ later ∈ after,later.1 ≠ entry.1

theorem stands_mem {writes : List (κ × α)} {entry : κ × α} (stands : Stands writes entry) : entry ∈ writes := by
  obtain ⟨before,after,is,_⟩ := stands
  simp [is]

variable [DecidableEq κ]

def write (map : AList fun _ : κ => α) (writes : List (κ × α)) : AList fun _ : κ => α :=
  writes.foldl (fun map entry => map.insert entry.1 entry.2) map

variable {map : AList fun _ : κ => α}

@[simp] theorem write_nil : write map [] = map := rfl

@[simp] theorem write_cons {entry : κ × α} {writes : List (κ × α)} :
    write map (entry :: writes) = write (map.insert entry.1 entry.2) writes := rfl

@[simp] theorem write_append {writes others : List (κ × α)} :
    write map (writes ++ others) = write (write map writes) others := by
  simp [write]

theorem mem_write {key : κ} {writes : List (κ × α)} :
    key ∈ write map writes ↔ key ∈ map ∨ ∃ entry ∈ writes,entry.1 = key := by
  induction writes generalizing map with
  | nil => simp
  | cons entry writes ih =>
    rw [write_cons,ih,AList.mem_insert]
    simp only [List.mem_cons,exists_eq_or_imp]
    constructor
    · rintro ((same | held) | later)
      · exact .inr (.inl same.symm)
      · exact .inl held
      · exact .inr (.inr later)
    · rintro (held | same | later)
      · exact .inl (.inr held)
      · exact .inl (.inl same.symm)
      · exact .inr later

-- Entries under other keys leave a key as it is.
theorem lookup_write_other {key : κ} {writes : List (κ × α)} (other : ∀ entry ∈ writes,entry.1 ≠ key) :
    (write map writes).lookup key = map.lookup key := by
  induction writes generalizing map with
  | nil => rfl
  | cons entry writes ih =>
    have differs : key ≠ entry.1 := (other entry List.mem_cons_self).symm
    rw [write_cons,ih fun later member => other later (List.mem_cons_of_mem _ member),AList.lookup_insert_ne differs]

theorem lookup_standing {writes : List (κ × α)} {entry : κ × α} (stands : Stands writes entry) :
    (write map writes).lookup entry.1 = some entry.2 := by
  obtain ⟨before,after,is,other⟩ := stands
  rw [is,write_append,write_cons,lookup_write_other other,AList.lookup_insert]

theorem written_stands {key : κ} {writes : List (κ × α)} (written : ∃ entry ∈ writes,entry.1 = key) :
    ∃ value,Stands writes (key,value) := by
  induction writes with
  | nil =>
    obtain ⟨entry,member,_⟩ := written
    cases member
  | cons first writes ih =>
    by_cases again : ∃ entry ∈ writes,entry.1 = key
    · obtain ⟨value,before,after,is,other⟩ := ih again
      exact ⟨value,first :: before,after,by rw [is,List.cons_append],other⟩
    · obtain ⟨entry,member,named⟩ := written
      rcases List.mem_cons.mp member with rfl | later
      · subst named
        exact ⟨entry.2,[],writes,rfl,fun later inside same => again ⟨later,inside,same⟩⟩
      · exact absurd ⟨entry,later,named⟩ again

-- The map stays as it was exactly where it already held what stands.
theorem unchanged_iff {writes : List (κ × α)} :
    (∀ key,(write map writes).lookup key = map.lookup key) ↔
      ∀ entry,Stands writes entry → map.lookup entry.1 = some entry.2 := by
  constructor
  · intro same entry stands
    rw [← same entry.1,lookup_standing stands]
  · intro held key
    by_cases written : ∃ entry ∈ writes,entry.1 = key
    · obtain ⟨value,stands⟩ := written_stands written
      rw [held (key,value) stands]
      exact lookup_standing stands
    · exact lookup_write_other fun entry member same => written ⟨entry,member,same⟩

-- A written key holds the value exactly where every standing entry under it has that value.
theorem holds_iff {key : κ} {value : α} {writes : List (κ × α)} (written : ∃ entry ∈ writes,entry.1 = key) :
    (write map writes).lookup key = some value ↔ ∀ other,Stands writes (key,other) → other = value := by
  constructor
  · intro holds other stands
    have last : (write map writes).lookup key = some other := lookup_standing stands
    rw [last] at holds
    exact Option.some.inj holds
  · intro only
    obtain ⟨other,stands⟩ := written_stands written
    have last : (write map writes).lookup key = some other := lookup_standing stands
    rw [last,only other stands]

section InPlace

-- A key keeps its place when what is under it is written again.
def put (map : AList fun _ : κ => α) (key : κ) (written : α) : AList fun _ : κ => α :=
  if key ∈ map then map.replace key written else map.insert key written

def putAll (map : AList fun _ : κ => α) (entries : List (Σ _ : κ, α)) : AList fun _ : κ => α :=
  entries.foldl (fun map entry => put map entry.1 entry.2) map

theorem dlookup_kreplace {key other : κ} {written : α} {entries : List (Σ _ : κ, α)} (held : key ∈ entries.keys) :
    (entries.kreplace key written).dlookup other = if other = key then some written else entries.dlookup other := by
  induction entries with
  | nil => simp at held
  | cons entry entries ih =>
    obtain ⟨name,stored⟩ := entry
    unfold List.kreplace at ih ⊢
    by_cases same : key = name
    · subst same
      rw [List.lookmap_cons_some _ _ (by simp; rfl)]
      by_cases asked : other = key
      · subst asked
        simp
      · rw [if_neg asked,List.dlookup_cons_ne _ _ asked,List.dlookup_cons_ne _ _ asked]
    · rw [List.lookmap_cons_none _ _ (by simp [same])]
      have later : key ∈ entries.keys := by simpa [same] using held
      by_cases asked : other = name
      · subst asked
        rw [List.dlookup_cons_eq,if_neg (fun is => same is.symm),List.dlookup_cons_eq]
      · rw [List.dlookup_cons_ne _ _ asked,ih later,List.dlookup_cons_ne _ _ asked]

theorem lookup_put (map : AList fun _ : κ => α) (key other : κ) (written : α) :
    (put map key written).lookup other = if other = key then some written else map.lookup other := by
  unfold put
  split
  · rename_i held
    exact dlookup_kreplace held
  · by_cases asked : other = key
    · subst asked
      rw [AList.lookup_insert,if_pos rfl]
    · rw [AList.lookup_insert_ne asked,if_neg asked]

theorem lookup_putAll {entries : List (Σ _ : κ, α)} (distinct : entries.NodupKeys) (map : AList fun _ : κ => α) (key : κ) :
    (putAll map entries).lookup key = (entries.dlookup key).or (map.lookup key) := by
  induction entries generalizing map with
  | nil => rfl
  | cons entry entries ih =>
    obtain ⟨fresh,rest⟩ := List.nodupKeys_cons.mp distinct
    obtain ⟨name,written⟩ := entry
    change (putAll (put map name written) entries).lookup key = _
    rw [ih rest,lookup_put]
    by_cases asked : key = name
    · subst asked
      rw [List.dlookup_eq_none.mpr fresh,if_pos rfl,List.dlookup_cons_eq]
      rfl
    · rw [if_neg asked,List.dlookup_cons_ne _ _ asked]

-- Written keys that are held already change no order.
theorem keys_putAll {entries : List (Σ _ : κ, α)} {map : AList fun _ : κ => α} (held : ∀ entry ∈ entries,entry.1 ∈ map) :
    (putAll map entries).keys = map.keys := by
  induction entries generalizing map with
  | nil => rfl
  | cons entry entries ih =>
    have first : (put map entry.1 entry.2).keys = map.keys := by
      unfold put
      rw [if_pos (held entry List.mem_cons_self),AList.keys_replace]
    have rest : ∀ other ∈ entries,other.1 ∈ put map entry.1 entry.2 := by
      intro other member
      rw [AList.mem_keys,first]
      exact held other (List.mem_cons_of_mem _ member)
    exact (ih rest).trans first

end InPlace

section Over
variable {base : κ → α} {writes : List (κ × α)}

-- The same where every key holds something from the start.
def updated (base : κ → α) (writes : List (κ × α)) : κ → α :=
  writes.foldl (fun held entry => Function.update held entry.1 entry.2) base

theorem updated_other {key : κ} (other : ∀ entry ∈ writes,entry.1 ≠ key) : updated base writes key = base key := by
  induction writes generalizing base with
  | nil => rfl
  | cons entry writes ih =>
    have differs : key ≠ entry.1 := (other entry List.mem_cons_self).symm
    have rest : updated (Function.update base entry.1 entry.2) writes key = Function.update base entry.1 entry.2 key :=
      ih fun later member => other later (List.mem_cons_of_mem _ member)
    exact rest.trans (Function.update_of_ne differs _ _)

theorem updated_standing {entry : κ × α} (stands : Stands writes entry) : updated base writes entry.1 = entry.2 := by
  obtain ⟨before,after,is,other⟩ := stands
  unfold updated
  rw [is,List.foldl_append,List.foldl_cons]
  exact (updated_other other).trans (Function.update_self _ _ _)

end Over

end LastWrite
