import Mathlib.Data.List.AList
import Mathlib.Data.List.Induction

-- Objects in an ordered map under their qualified keys, and the best placed of
-- those with one bare key under that key as well.
namespace Aliases

abbrev Entries (δ : Type) := Std.TreeMap String δ

section
variable {ρ δ : Type}

theorem insert_get (entries : Entries δ) (key other : String) (value : δ) :
    (entries.insert key value)[other]? = if key = other then some value else entries[other]? := by
  simp only [Std.TreeMap.getElem?_insert,Std.compare_eq_iff_eq]

def ofList (key : ρ → String) (value : ρ → δ) (xs : List ρ) : Entries δ :=
  xs.foldl (fun entries x => entries.insert (key x) (value x)) ∅

def last (key : ρ → String) (wanted : String) (xs : List ρ) : Option ρ := xs.reverse.find? fun x => key x = wanted

theorem ofList_get {key : ρ → String} {value : ρ → δ} (xs : List ρ) (wanted : String) :
    (ofList key value xs)[wanted]? = (last key wanted xs).map value := by
  induction xs using List.reverseRecOn with
  | nil => exact Std.TreeMap.getElem?_emptyc
  | append_singleton xs x ih =>
    unfold ofList last at *
    rw [List.foldl_append,List.foldl_cons,List.foldl_nil,insert_get,List.reverse_append,List.reverse_singleton,
      List.singleton_append,List.find?_cons]
    by_cases same : key x = wanted
    · simp [same]
    · simpa [same] using ih

theorem last_some {key : ρ → String} {wanted : String} {xs : List ρ} {x : ρ} (is : last key wanted xs = some x) :
    x ∈ xs ∧ key x = wanted := by
  have found := List.find?_some is
  exact ⟨List.mem_reverse.mp (List.mem_of_find?_eq_some is),of_decide_eq_true found⟩

theorem last_isSome {key : ρ → String} {wanted : String} {xs : List ρ} :
    (last key wanted xs).isSome ↔ ∃ x ∈ xs,key x = wanted := by
  unfold last
  rw [List.find?_isSome]
  simp only [List.mem_reverse,decide_eq_true_eq]

end

section
variable {ρ δ : Type} (qualified bare : ρ → String) (rank : ρ → Int)

def challenge (winners : Entries (Int × String)) (row : ρ) : Entries (Int × String) :=
  match winners[bare row]? with
  | some winner => if winner.1 ≤ rank row then winners else winners.insert (bare row) (rank row,qualified row)
  | none => winners.insert (bare row) (rank row,qualified row)

def prefer (found : Option ρ) (row : ρ) : Option ρ :=
  match found with
  | some winner => if rank winner ≤ rank row then some winner else some row
  | none => some row

-- The first of the rows with the bare key that no other such row is placed before.
def best (wanted : String) (rows : List ρ) : Option ρ :=
  (rows.filter fun row => bare row = wanted).foldl (prefer rank) none

theorem challenge_get (winners : Entries (Int × String)) (row : ρ) (wanted : String) :
    (challenge qualified bare rank winners row)[wanted]? = if bare row = wanted then
      some ((winners[wanted]?.filter fun winner => winner.1 ≤ rank row).getD (rank row,qualified row))
    else winners[wanted]? := by
  by_cases same : bare row = wanted
  · subst same
    rw [if_pos rfl]
    unfold challenge
    cases held : winners[bare row]? with
    | none => simp
    | some winner => by_cases kept : winner.1 ≤ rank row <;> simp [kept,held,Option.filter]
  · rw [if_neg same]
    unfold challenge
    split
    · split
      · rfl
      · rw [insert_get,if_neg same]
    · rw [insert_get,if_neg same]

theorem challenged_get (rows : List ρ) (wanted : String) :
    (rows.foldl (challenge qualified bare rank) ∅)[wanted]? =
      (best bare rank wanted rows).map fun row => (rank row,qualified row) := by
  induction rows using List.reverseRecOn with
  | nil => exact Std.TreeMap.getElem?_emptyc
  | append_singleton rows row ih =>
    unfold best at *
    rw [List.foldl_append,List.foldl_cons,List.foldl_nil,List.filter_append,challenge_get,ih]
    by_cases same : bare row = wanted
    · rw [if_pos same,List.filter_cons_of_pos (by simpa using same),List.filter_nil,List.foldl_append,List.foldl_cons,
        List.foldl_nil]
      cases (rows.filter fun row => bare row = wanted).foldl (prefer rank) none with
      | none => rfl
      | some winner => by_cases kept : rank winner ≤ rank row <;> simp [prefer,kept,Option.filter]
    · rw [if_neg same,List.filter_cons_of_neg (by simpa using same),List.filter_nil,List.append_nil]

structure Registered (δ : Type) where
  entries : Entries δ
  winners : Entries (Int × String)

-- A row opens the object of its key, where no earlier row has, and adds to it.
def register (fresh : ρ → δ) (add : δ → ρ → δ) (state : Registered δ) (row : ρ) : Registered δ :=
  let opened : Registered δ := if state.entries.contains (qualified row) then state else
    ⟨state.entries.insert (qualified row) (fresh row),challenge qualified bare rank state.winners row⟩
  ⟨opened.entries.modify (qualified row) fun object => add object row,opened.winners⟩

def openers (rows : List ρ) : List ρ :=
  rows.foldl (fun opened row => if qualified row ∈ opened.map qualified then opened else opened ++ [row]) []

-- All rows of one key, as one object.
def object (fresh : ρ → δ) (add : δ → ρ → δ) (wanted : String) (rows : List ρ) : Option δ :=
  let own := rows.filter fun row => qualified row = wanted
  own.head?.map fun first => own.foldl add (fresh first)

theorem openers_keys (rows : List ρ) (wanted : String) :
    wanted ∈ (openers qualified rows).map qualified ↔ wanted ∈ rows.map qualified := by
  induction rows using List.reverseRecOn with
  | nil => rfl
  | append_singleton rows row ih =>
    unfold openers at *
    rw [List.foldl_append,List.foldl_cons,List.foldl_nil]
    split
    · rename_i known
      simp only [List.map_append,List.map_cons,List.map_nil,List.mem_append,List.mem_singleton]
      rw [ih]
      constructor
      · exact .inl
      · intro either
        rcases either with old | new
        · exact old
        · subst new
          exact ih.mp known
    · simp only [List.map_append,List.map_cons,List.map_nil,List.mem_append,List.mem_singleton,ih]

theorem openers_concat (rows : List ρ) (row : ρ) : openers qualified (rows ++ [row]) =
    if qualified row ∈ rows.map qualified then openers qualified rows else openers qualified rows ++ [row] := by
  have known := openers_keys qualified rows (qualified row)
  unfold openers at *
  rw [List.foldl_append,List.foldl_cons,List.foldl_nil]
  simp only [known]

theorem object_concat (fresh : ρ → δ) (add : δ → ρ → δ) (rows : List ρ) (row : ρ) (wanted : String) :
    object qualified fresh add wanted (rows ++ [row]) = if qualified row = wanted then
      some (add ((object qualified fresh add wanted rows).getD (fresh row)) row)
    else object qualified fresh add wanted rows := by
  unfold object
  rw [List.filter_append]
  by_cases same : qualified row = wanted
  · rw [List.filter_cons_of_pos (by simpa using same),List.filter_nil,if_pos same]
    cases rows.filter fun row => qualified row = wanted with
    | nil => rfl
    | cons first own => simp
  · rw [List.filter_cons_of_neg (by simpa using same),List.filter_nil,List.append_nil,if_neg same]

theorem object_isSome {fresh : ρ → δ} {add : δ → ρ → δ} {rows : List ρ} {wanted : String} :
    (object qualified fresh add wanted rows).isSome ↔ wanted ∈ rows.map qualified := by
  unfold object
  rw [Option.isSome_map]
  cases own : rows.filter fun row => qualified row = wanted with
  | nil =>
    simp only [List.head?_nil,Option.isSome_none,Bool.false_eq_true,false_iff,List.mem_map,not_exists,not_and]
    intro row member same
    exact absurd (List.filter_eq_nil_iff.mp own row member) (by simpa using same)
  | cons first others =>
    have member : first ∈ rows.filter fun row => qualified row = wanted := by rw [own]; exact List.mem_cons_self
    obtain ⟨among,same⟩ := List.mem_filter.mp member
    simp only [List.head?_cons,Option.isSome_some,true_iff]
    exact List.mem_map.mpr ⟨first,among,of_decide_eq_true same⟩

-- What the rows register: an object for each key, and winners among the openers.
theorem registered (fresh : ρ → δ) (add : δ → ρ → δ) (rows : List ρ) :
    (∀ wanted : String,(rows.foldl (register qualified bare rank fresh add) ⟨∅,∅⟩).entries[wanted]? =
      object qualified fresh add wanted rows) ∧
    (rows.foldl (register qualified bare rank fresh add) ⟨∅,∅⟩).winners =
      (openers qualified rows).foldl (challenge qualified bare rank) ∅ := by
  induction rows using List.reverseRecOn with
  | nil => exact ⟨fun _ => Std.TreeMap.getElem?_emptyc,rfl⟩
  | append_singleton rows row ih =>
    obtain ⟨entries,winners⟩ := ih
    rw [List.foldl_append,List.foldl_cons,List.foldl_nil,openers_concat]
    generalize rows.foldl (register qualified bare rank fresh add) ⟨∅,∅⟩ = state at *
    have known : state.entries.contains (qualified row) = true ↔ qualified row ∈ rows.map qualified := by
      rw [Std.TreeMap.contains_eq_isSome_getElem?,entries,object_isSome]
    unfold register
    dsimp only
    by_cases seen : qualified row ∈ rows.map qualified
    · rw [if_pos (known.mpr seen),if_pos seen]
      refine ⟨?_,winners⟩
      intro wanted
      rw [Std.TreeMap.getElem?_modify,object_concat]
      simp only [Std.compare_eq_iff_eq,entries]
      by_cases same : qualified row = wanted
      · subst same
        have opened : (object qualified fresh add (qualified row) rows).isSome := (object_isSome qualified).mpr seen
        obtain ⟨held,is⟩ := Option.isSome_iff_exists.mp opened
        simp [is]
      · simp [same]
    · have unseen : ¬state.entries.contains (qualified row) = true := fun holds => seen (known.mp holds)
      rw [if_neg unseen,if_neg seen]
      constructor
      · intro wanted
        rw [Std.TreeMap.getElem?_modify,object_concat]
        simp only [Std.compare_eq_iff_eq,insert_get,entries]
        by_cases same : qualified row = wanted
        · subst same
          have none : object qualified fresh add (qualified row) rows = none := by
            rw [← Option.not_isSome_iff_eq_none,object_isSome]
            exact seen
          simp [none]
        · simp [same]
      · rw [List.foldl_append,List.foldl_cons,List.foldl_nil,winners]

end

section
variable {δ : Type}

def giveAlias (entries : Entries δ) (item : String × Int × String) : Entries δ :=
  match entries[item.2.2]? with
  | some object => entries.insert item.1 object
  | none => entries

-- The winners' objects once more, under the bare keys.
def aliased (entries : Entries δ) (winners : Entries (Int × String)) : Entries δ := winners.toList.foldl giveAlias entries

theorem alias_other {entries : Entries δ} {item : String × Int × String} {key : String} (other : item.1 ≠ key) :
    (giveAlias entries item)[key]? = entries[key]? := by
  unfold giveAlias
  split
  · rw [insert_get,if_neg other]
  · rfl

theorem aliases_other {items : List (String × Int × String)} {key : String} (none : key ∉ items.map Prod.fst) :
    ∀ entries : Entries δ,(items.foldl giveAlias entries)[key]? = entries[key]? := by
  induction items with
  | nil => exact fun _ => rfl
  | cons item items ih =>
    intro entries
    rw [List.map_cons,List.mem_cons,not_or] at none
    rw [List.foldl_cons,ih none.2,alias_other fun same => none.1 same.symm]

theorem aliases_own {items : List (String × Int × String)} (distinct : (items.map Prod.fst).Nodup)
    (apart : ∀ item ∈ items,item.2.2 ∉ items.map Prod.fst) {item : String × Int × String} (member : item ∈ items)
    {object : δ} : ∀ entries : Entries δ,entries[item.2.2]? = some object →
      (items.foldl giveAlias entries)[item.1]? = some object := by
  induction items with
  | nil => cases member
  | cons first items ih =>
    intro entries held
    rw [List.map_cons,List.nodup_cons] at distinct
    rw [List.foldl_cons]
    rcases List.mem_cons.mp member with rfl | later
    · rw [aliases_other distinct.1]
      unfold giveAlias
      rw [held]
      simp
    · have separate : ∀ item ∈ items,item.2.2 ∉ items.map Prod.fst := by
        intro item inside known
        exact apart item (List.mem_cons_of_mem _ inside) (List.mem_cons_of_mem _ known)
      apply ih distinct.2 separate later
      rw [alias_other]
      · exact held
      · intro same
        apply apart item member
        rw [← same]
        exact List.mem_cons_self

theorem aliased_get {entries : Entries δ} {winners : Entries (Int × String)}
    (apart : ∀ (key : String) (item : Int × String),winners[key]? = some item → winners[item.2]? = none)
    (registered : ∀ (key : String) (item : Int × String),winners[key]? = some item → (entries[item.2]?).isSome)
    (key : String) :
    (aliased entries winners)[key]? = match winners[key]? with
      | some item => entries[item.2]?
      | none => entries[key]? := by
  have keys : ∀ other,other ∈ winners.toList.map Prod.fst ↔ (winners[other]?).isSome := by
    intro other
    rw [List.mem_map,Option.isSome_iff_exists]
    constructor
    · intro known
      obtain ⟨item,member,rfl⟩ := known
      exact ⟨item.2,Std.TreeMap.mem_toList_iff_getElem?_eq_some.mp member⟩
    · intro held
      obtain ⟨item,is⟩ := held
      exact ⟨(other,item),Std.TreeMap.mem_toList_iff_getElem?_eq_some.mpr is,rfl⟩
  have distinct : (winners.toList.map Prod.fst).Nodup := by
    have pairs := Std.TreeMap.distinct_keys_toList (t := winners)
    rw [List.nodup_iff_pairwise_ne,List.pairwise_map]
    exact pairs.imp fun differ same => differ (Std.compare_eq_iff_eq.mpr same)
  unfold aliased
  cases held : winners[key]? with
  | none =>
    rw [aliases_other]
    rw [keys,held]
    exact Bool.false_ne_true
  | some item =>
    obtain ⟨object,is⟩ := Option.isSome_iff_exists.mp (registered key item held)
    dsimp only
    rw [is]
    have member : (key,item) ∈ winners.toList := Std.TreeMap.mem_toList_iff_getElem?_eq_some.mpr held
    refine aliases_own distinct ?_ member entries is
    intro other inside known
    have found := Std.TreeMap.mem_toList_iff_getElem?_eq_some.mp (show (other.1,other.2) ∈ winners.toList from inside)
    rw [keys,apart _ _ found] at known
    cases known

end

section
variable {ρ δ : Type} (isQualified : String → Bool) (qualified bare : ρ → String) (rank : ρ → Int)

-- The qualified key of the object that a key finds.
def counterpart (key : String) (candidates : List ρ) : Option String :=
  if isQualified key then if key ∈ candidates.map qualified then some key else none
  else (best bare rank key candidates).map qualified

-- No qualified key is a bare one.
structure KeysApart : Prop where
  qualified : ∀ row,isQualified (qualified row)
  bare : ∀ row,¬isQualified (bare row)

variable {isQualified qualified bare rank}

theorem preferred_mem (rows : List ρ) : ∀ row ∈ rows.foldl (prefer rank) none,row ∈ rows := by
  induction rows using List.reverseRecOn with
  | nil => exact fun _ is => by cases is
  | append_singleton rows last ih =>
    intro row is
    rw [List.foldl_append,List.foldl_cons,List.foldl_nil] at is
    cases found : rows.foldl (prefer rank) none with
    | none =>
      rw [found] at is
      cases is
      exact List.mem_append_right _ List.mem_cons_self
    | some winner =>
      rw [found] at is
      unfold prefer at is
      dsimp only at is
      split at is
      · cases is
        exact List.mem_append_left _ (ih _ found)
      · cases is
        exact List.mem_append_right _ List.mem_cons_self

theorem preferred_some {rows : List ρ} {row : ρ} (member : row ∈ rows) : (rows.foldl (prefer rank) none).isSome := by
  induction rows using List.reverseRecOn with
  | nil => cases member
  | append_singleton rows last ih =>
    rw [List.foldl_append,List.foldl_cons,List.foldl_nil]
    cases rows.foldl (prefer rank) none with
    | none => rfl
    | some winner =>
      unfold prefer
      dsimp only
      split
      · rfl
      · rfl

theorem best_some {rows : List ρ} {wanted : String} {row : ρ} (is : best bare rank wanted rows = some row) :
    row ∈ rows ∧ bare row = wanted := by
  obtain ⟨member,same⟩ := List.mem_filter.mp (preferred_mem _ _ is)
  exact ⟨member,of_decide_eq_true same⟩

variable (bare rank) in
theorem counterpart_own {key : String} {candidates : List ρ} (is : isQualified key)
    (member : key ∈ candidates.map qualified) :
    counterpart isQualified qualified bare rank key candidates = some key := by
  unfold counterpart
  rw [if_pos is,if_pos member]

-- Of two keys spelt alike, each finds an object of its own.
theorem counterpart_apart {candidates : List ρ} (distinct : (candidates.map qualified).Nodup)
    {first second found : String} (alike : isQualified first = isQualified second)
    (left : counterpart isQualified qualified bare rank first candidates = some found)
    (right : counterpart isQualified qualified bare rank second candidates = some found) : first = second := by
  unfold counterpart at left right
  rw [← alike] at right
  split at left
  · rename_i dotted
    rw [if_pos dotted] at right
    split at left
    · split at right
      · cases left
        cases right
        rfl
      · cases right
    · cases left
  · rename_i plain
    rw [if_neg plain] at right
    obtain ⟨row,winner,same⟩ := Option.map_eq_some_iff.mp left
    obtain ⟨other,rival,equal⟩ := Option.map_eq_some_iff.mp right
    obtain ⟨member,is⟩ := best_some winner
    obtain ⟨among,has⟩ := best_some rival
    rw [← is,← has,List.inj_on_of_nodup_map distinct member among (same.trans equal.symm)]

theorem aliased_counterpart (separate : KeysApart isQualified qualified bare) {entries : Entries δ} {candidates : List ρ}
    (held : ∀ key : String,(entries[key]?).isSome ↔ key ∈ candidates.map qualified) (key : String) :
    (aliased entries (candidates.foldl (challenge qualified bare rank) ∅))[key]? =
      (counterpart isQualified qualified bare rank key candidates).bind fun found => entries[found]? := by
  have winners := challenged_get qualified bare rank candidates
  have dotless : ∀ dotted : String,isQualified dotted →
      (candidates.foldl (challenge qualified bare rank) ∅)[dotted]? = none := by
    intro dotted is
    rw [winners,Option.map_eq_none_iff,Option.eq_none_iff_forall_not_mem]
    intro row winner
    exact separate.bare row ((best_some winner).2 ▸ is)
  rw [aliased_get]
  · unfold counterpart
    by_cases dotted : isQualified key = true
    · rw [dotless key dotted,if_pos dotted]
      by_cases member : key ∈ candidates.map qualified
      · rw [if_pos member]
        rfl
      · rw [if_neg member]
        exact Option.not_isSome_iff_eq_none.mp fun holds => member ((held key).mp holds)
    · rw [if_neg dotted,winners]
      cases best bare rank key candidates with
      | some row => rfl
      | none =>
        apply Option.not_isSome_iff_eq_none.mp
        intro holds
        obtain ⟨row,_,same⟩ := List.mem_map.mp ((held key).mp holds)
        exact dotted (same ▸ separate.qualified row)
  · intro other item found
    rw [winners] at found
    obtain ⟨row,_,rfl⟩ := Option.map_eq_some_iff.mp found
    exact dotless _ (separate.qualified row)
  · intro other item found
    rw [winners] at found
    obtain ⟨row,winner,rfl⟩ := Option.map_eq_some_iff.mp found
    exact (held _).mpr (List.mem_map_of_mem (best_some winner).1)

theorem openers_distinct (rows : List ρ) : ((openers qualified rows).map qualified).Nodup := by
  induction rows using List.reverseRecOn with
  | nil => exact List.nodup_nil
  | append_singleton rows row ih =>
    rw [openers_concat]
    split
    · exact ih
    · rename_i fresh
      rw [List.map_append,List.map_singleton,List.nodup_append]
      refine ⟨ih,List.nodup_singleton _,?_⟩
      intro key member other new same
      rw [List.mem_singleton.mp new] at same
      exact fresh ((openers_keys qualified rows _).mp (same ▸ member))

theorem registered_counterpart (separate : KeysApart isQualified qualified bare) (fresh : ρ → δ) (add : δ → ρ → δ)
    {rows : List ρ} {state : Registered δ} (is : state = rows.foldl (register qualified bare rank fresh add) ⟨∅,∅⟩)
    (key : String) :
    (aliased state.entries state.winners)[key]? =
      (counterpart isQualified qualified bare rank key (openers qualified rows)).bind fun found =>
        object qualified fresh add found rows := by
  obtain ⟨entries,winners⟩ := registered qualified bare rank fresh add rows
  rw [← is] at entries winners
  rw [winners,aliased_counterpart separate]
  · simp only [entries]
  · intro other
    rw [entries,object_isSome,openers_keys]

-- The winners may be gone through in any order.
def AliasedAs (state : Registered δ) (result : Entries δ) : Prop :=
  ∀ items : List (String × Int × String),items.Perm state.winners.toList →
    ∀ key : String,(items.foldl giveAlias state.entries)[key]? = result[key]?

variable (isQualified) in
-- An alias is a bare key, and its object one of a qualified key.
def AliasesApart (state : Registered δ) : Prop :=
  ∀ item ∈ state.winners.toList,¬isQualified item.1 ∧ isQualified item.2.2 ∧ (state.entries[item.2.2]?).isSome

theorem challenged_apart {candidates : List ρ} {entries : Entries δ} (separate : KeysApart isQualified qualified bare)
    (held : ∀ row ∈ candidates,(entries[qualified row]?).isSome) :
    AliasesApart isQualified ⟨entries,candidates.foldl (challenge qualified bare rank) ∅⟩ := by
  intro item member
  have found := Std.TreeMap.mem_toList_iff_getElem?_eq_some.mp (show (item.1,item.2) ∈ _ from member)
  rw [challenged_get] at found
  obtain ⟨row,winner,same⟩ := Option.map_eq_some_iff.mp found
  obtain ⟨among,is⟩ := best_some winner
  rw [← same,← is]
  exact ⟨separate.bare row,separate.qualified row,held row among⟩

theorem aliased_any {state : Registered δ} (aliases : AliasesApart isQualified state) :
    AliasedAs state (aliased state.entries state.winners) := by
  have distinct : (state.winners.toList.map Prod.fst).Nodup := by
    have pairs := Std.TreeMap.distinct_keys_toList (t := state.winners)
    rw [List.nodup_iff_pairwise_ne,List.pairwise_map]
    exact pairs.imp fun differ same => differ (Std.compare_eq_iff_eq.mpr same)
  have apart : ∀ item ∈ state.winners.toList,item.2.2 ∉ state.winners.toList.map Prod.fst := by
    intro item member known
    obtain ⟨other,among,same⟩ := List.mem_map.mp known
    exact (aliases other among).1 (same ▸ (aliases item member).2.1)
  intro items perm key
  have keys := perm.map Prod.fst
  by_cases known : key ∈ items.map Prod.fst
  · obtain ⟨item,member,rfl⟩ := List.mem_map.mp known
    have among := perm.mem_iff.mp member
    obtain ⟨object,is⟩ := Option.isSome_iff_exists.mp (aliases item among).2.2
    have apart' : ∀ item ∈ items,item.2.2 ∉ items.map Prod.fst := by
      intro other inside
      rw [keys.mem_iff]
      exact apart other (perm.mem_iff.mp inside)
    rw [aliases_own (keys.nodup_iff.mpr distinct) apart' member _ is]
    exact (aliases_own distinct apart among _ is).symm
  · rw [aliases_other known]
    rw [keys.mem_iff] at known
    exact (aliases_other known _).symm

variable (rank) in
theorem registered_apart (separate : KeysApart isQualified qualified bare) (fresh : ρ → δ) (add : δ → ρ → δ)
    (rows : List ρ) : AliasesApart isQualified (rows.foldl (register qualified bare rank fresh add) ⟨∅,∅⟩) := by
  obtain ⟨entries,winners⟩ := registered qualified bare rank fresh add rows
  generalize rows.foldl (register qualified bare rank fresh add) ⟨∅,∅⟩ = state at *
  obtain ⟨held,given⟩ := state
  dsimp only at entries winners
  rw [winners]
  apply challenged_apart separate
  intro row among
  rw [entries,object_isSome,← openers_keys]
  exact List.mem_map_of_mem among

-- Among items of distinct keys the last of a key is the only one.
theorem last_own {key : ρ → String} {xs : List ρ} (distinct : (xs.map key).Nodup) {x : ρ} (member : x ∈ xs) :
    last key (key x) xs = some x := by
  obtain ⟨found,is⟩ := Option.isSome_iff_exists.mp (last_isSome.mpr ⟨x,member,rfl⟩)
  obtain ⟨among,same⟩ := last_some is
  rw [is,List.inj_on_of_nodup_map distinct among member same]

theorem preferred_least (rows : List ρ) : ∀ row ∈ rows.foldl (prefer rank) none,∀ other ∈ rows,rank row ≤ rank other := by
  induction rows using List.reverseRecOn with
  | nil => exact fun _ is => by cases is
  | append_singleton rows last ih =>
    intro row is other member
    rw [List.foldl_append,List.foldl_cons,List.foldl_nil] at is
    cases found : rows.foldl (prefer rank) none with
    | none =>
      rw [found] at is
      cases is
      rcases List.mem_append.mp member with old | new
      · exact absurd (preferred_some old) (by rw [found]; exact Bool.false_ne_true)
      · exact Int.le_of_eq (congrArg rank (List.mem_singleton.mp new)).symm
    | some winner =>
      have least := ih winner found
      rw [found] at is
      unfold prefer at is
      dsimp only at is
      split at is
      · rename_i kept
        cases is
        rcases List.mem_append.mp member with old | new
        · exact least other old
        · rw [List.mem_singleton.mp new]
          exact kept
      · rename_i beaten
        cases is
        rcases List.mem_append.mp member with old | new
        · have behind := least other old
          omega
        · exact Int.le_of_eq (congrArg rank (List.mem_singleton.mp new)).symm

theorem best_least {rows : List ρ} {wanted : String} {row : ρ} (is : best bare rank wanted rows = some row) :
    ∀ other ∈ rows,bare other = wanted → rank row ≤ rank other := by
  intro other member same
  exact preferred_least _ _ is other (List.mem_filter.mpr ⟨member,decide_eq_true same⟩)

variable (rank) in
theorem best_isSome {rows : List ρ} {wanted : String} :
    (best bare rank wanted rows).isSome ↔ ∃ row ∈ rows,bare row = wanted := by
  constructor
  · intro held
    obtain ⟨row,is⟩ := Option.isSome_iff_exists.mp held
    exact ⟨row,best_some is⟩
  · intro found
    obtain ⟨row,member,same⟩ := found
    exact preferred_some (List.mem_filter.mpr ⟨member,decide_eq_true same⟩)

-- The first of the rows wins over those that are not placed before it.
theorem best_first {row : ρ} {rows : List ρ} (least : ∀ other ∈ rows,bare other = bare row → rank row ≤ rank other) :
    best bare rank (bare row) (row :: rows) = some row := by
  unfold best
  rw [List.filter_cons_of_pos (by simp)]
  rw [List.foldl_cons]
  have kept : ∀ others : List ρ,(∀ other ∈ others,rank row ≤ rank other) → others.foldl (prefer rank) (some row) = some row := by
    intro others
    induction others with
    | nil => exact fun _ => rfl
    | cons other others ih =>
      intro behind
      have step : prefer rank (some row) other = some row := if_pos (behind other List.mem_cons_self)
      rw [List.foldl_cons,step,ih fun next member => behind next (List.mem_cons_of_mem _ member)]
  apply kept
  intro other member
  obtain ⟨among,same⟩ := List.mem_filter.mp member
  exact least other among (of_decide_eq_true same)

end
end Aliases
