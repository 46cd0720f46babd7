import Mathlib.Data.List.Induction
import Mathlib.Data.List.Nodup

-- Grouping the rows of a list by a key: one group for each key, in the order in
-- which the keys first appear, each with all its rows.
namespace Grouping
variable {ι κ : Type} [DecidableEq κ]

structure RowGroup (ι : Type) where
  first : ι
  members : List ι
  deriving DecidableEq,Repr

-- The first row of each key.
def firsts (key : ι → κ) : List ι → List ι
  | [] => []
  | i :: rows => i :: (firsts key rows).filter fun j => key j ≠ key i

theorem firsts_cons (key : ι → κ) (i : ι) (rows : List ι) :
    firsts key (i :: rows) = i :: (firsts key rows).filter fun j => key j ≠ key i := rfl

def groups (key : ι → κ) (rows : List ι) : List (RowGroup ι) :=
  (firsts key rows).map fun i => ⟨i,rows.filter fun j => key j = key i⟩

def Known (key : ι → κ) (rows : List ι) (k : κ) : Prop := k ∈ rows.map key

instance (key : ι → κ) (rows : List ι) (k : κ) : Decidable (Known key rows k) := inferInstanceAs (Decidable (_ ∈ _))

variable {key : ι → κ}

theorem known_firsts {rows : List ι} {k : κ} : Known key (firsts key rows) k ↔ Known key rows k := by
  unfold Known
  induction rows with
  | nil => rfl
  | cons i rows ih =>
    simp only [firsts_cons,List.map_cons,List.mem_cons]
    by_cases same : k = key i
    · simp [same]
    · simp only [same,false_or]
      rw [←ih]
      simp only [List.mem_map,List.mem_filter,decide_eq_true_eq]
      constructor
      · rintro ⟨j,⟨member,-⟩,rfl⟩
        exact ⟨j,member,rfl⟩
      · rintro ⟨j,member,rfl⟩
        exact ⟨j,⟨member,same⟩,rfl⟩

theorem firsts_nodup (rows : List ι) : ((firsts key rows).map key).Nodup := by
  induction rows with
  | nil => exact List.nodup_nil
  | cons i rows ih =>
    rw [firsts_cons,List.map_cons,List.nodup_cons]
    constructor
    · simp
    · exact ih.sublist (List.filter_sublist.map key)

theorem mem_of_mem_firsts {rows : List ι} {i : ι} (member : i ∈ firsts key rows) : i ∈ rows := by
  induction rows with
  | nil => exact member
  | cons j rows ih =>
    rcases List.mem_cons.mp member with rfl | later
    · exact List.mem_cons_self
    · exact List.mem_cons_of_mem _ (ih (List.mem_of_mem_filter later))

theorem firsts_snoc_known {rows : List ι} {j : ι} (known : Known key rows (key j)) :
    firsts key (rows ++ [j]) = firsts key rows := by
  induction rows with
  | nil => cases known
  | cons i rows ih =>
    rw [List.cons_append,firsts_cons,firsts_cons]
    by_cases same : key j = key i
    · by_cases before : Known key rows (key j)
      · rw [ih before]
      · congr 1
        have fresh : firsts key (rows ++ [j]) = firsts key rows ++ [j] := by
          clear ih known
          induction rows with
          | nil => rfl
          | cons e rows ih' =>
            simp only [Known,List.map_cons,List.mem_cons,not_or] at before
            rw [List.cons_append,firsts_cons,firsts_cons,ih' before.2,List.filter_append]
            simp [before.1]
        rw [fresh,List.filter_append]
        simp [same]
    · have before : Known key rows (key j) := by
        simp only [Known,List.map_cons,List.mem_cons] at known
        exact known.resolve_left same
      rw [ih before]

theorem firsts_snoc_new {rows : List ι} {j : ι} (new : ¬Known key rows (key j)) :
    firsts key (rows ++ [j]) = firsts key rows ++ [j] := by
  induction rows with
  | nil => rfl
  | cons i rows ih =>
    simp only [Known,List.map_cons,List.mem_cons,not_or] at new
    rw [List.cons_append,firsts_cons,firsts_cons,ih new.2,List.filter_append]
    simp [new.1]

def RowGroup.add (j : ι) (g : RowGroup ι) : RowGroup ι := ⟨g.first,g.members ++ [j]⟩

theorem groups_snoc_known {rows : List ι} {j : ι} (known : Known key rows (key j)) :
    groups key (rows ++ [j]) = (groups key rows).map fun g => if key g.first = key j then g.add j else g := by
  unfold groups
  rw [firsts_snoc_known known,List.map_map]
  refine List.map_congr_left fun i _ => ?_
  by_cases same : key i = key j
  · simp [same,RowGroup.add,List.filter_append]
  · have differs : key j ≠ key i := fun equal => same equal.symm
    simp [same,differs,List.filter_append]

theorem groups_snoc_new {rows : List ι} {j : ι} (new : ¬Known key rows (key j)) :
    groups key (rows ++ [j]) = groups key rows ++ [⟨j,[j]⟩] := by
  unfold groups
  rw [firsts_snoc_new new,List.map_append]
  congr 1
  · refine List.map_congr_left fun i member => ?_
    have differs : key j ≠ key i := fun equal =>
      new (equal ▸ List.mem_map_of_mem (mem_of_mem_firsts member))
    simp [differs,List.filter_append]
  · have nothing : rows.filter (fun i => key i = key j) = [] := by
      refine List.filter_eq_nil_iff.mpr fun i member => ?_
      have differs : key i ≠ key j := fun equal => new (equal ▸ List.mem_map_of_mem member)
      simpa using differs
    simp [List.filter_append,nothing]

-- Two rows share a group exactly when they share their key, so the groups say
-- which rows have equal keys.
theorem same_group_iff {rows : List ι} {i j : ι} (iMember : i ∈ rows) (jMember : j ∈ rows) :
    key i = key j ↔ ∃ g ∈ groups key rows,i ∈ g.members ∧ j ∈ g.members := by
  constructor
  · intro same
    have known : Known key rows (key i) := List.mem_map_of_mem iMember
    obtain ⟨first,member,equal⟩ := List.mem_map.mp (known_firsts.mpr known)
    refine ⟨_,List.mem_map_of_mem member,?_,?_⟩
    · simpa [iMember] using equal.symm
    · simpa [jMember] using same.symm.trans equal.symm
  · rintro ⟨g,member,inI,inJ⟩
    obtain ⟨first,-,rfl⟩ := List.mem_map.mp member
    simp only [List.mem_filter,decide_eq_true_eq] at inI inJ
    exact inI.2.trans inJ.2.symm

-- Equal keys in one way exactly when equal in another give the same groups.
theorem groups_congr {κ' : Type} [DecidableEq κ'] {key' : ι → κ'} {rows : List ι}
    (same : ∀ i ∈ rows,∀ j ∈ rows,key i = key j ↔ key' i = key' j) : groups key rows = groups key' rows := by
  have first : firsts key rows = firsts key' rows := by
    induction rows with
    | nil => rfl
    | cons i rows ih =>
      have tail := ih fun a aMember b bMember =>
        same a (List.mem_cons_of_mem _ aMember) b (List.mem_cons_of_mem _ bMember)
      rw [firsts_cons,firsts_cons,tail]
      congr 1
      refine List.filter_congr fun j member => ?_
      have pair := same j (List.mem_cons_of_mem _ (mem_of_mem_firsts member)) i List.mem_cons_self
      simp [pair]
  unfold groups
  rw [first]
  refine List.map_congr_left fun i member => ?_
  congr 1
  refine List.filter_congr fun j jMember => ?_
  simp [same j jMember i (mem_of_mem_firsts member)]

-- The place of a key's group among the groups.
def position (key : ι → κ) (rows : List ι) (k : κ) : Option Nat := (firsts key rows).findIdx? fun i => key i = k

theorem position_isSome {rows : List ι} {k : κ} : (position key rows k).isSome ↔ Known key rows k := by
  rw [position,List.findIdx?_isSome,←known_firsts]
  simp [Known]

theorem position_none {rows : List ι} {k : κ} (none : position key rows k = none) : ¬Known key rows k := by
  rw [←position_isSome,none]
  exact Bool.false_ne_true

theorem position_some {rows : List ι} {k : κ} {p : Nat} (some : position key rows k = some p) : Known key rows k := by
  rw [←position_isSome,some]
  rfl

theorem position_get {rows : List ι} {k : κ} {p : Nat} (is : position key rows k = some p) :
    ((firsts key rows).map key)[p]? = some k := by
  obtain ⟨inside,equal,-⟩ := List.findIdx?_eq_some_iff_getElem.mp is
  rw [List.getElem?_map,List.getElem?_eq_getElem inside]
  simpa using equal

theorem position_snoc_known {rows : List ι} {j : ι} (known : Known key rows (key j)) (k : κ) :
    position key (rows ++ [j]) k = position key rows k := by rw [position,firsts_snoc_known known,position]

theorem position_snoc_new {rows : List ι} {j : ι} (new : ¬Known key rows (key j)) (k : κ) :
    position key (rows ++ [j]) k = if k = key j then some (firsts key rows).length else position key rows k := by
  have appended : position key (rows ++ [j]) k =
      (position key rows k).or (if key j = k then some (firsts key rows).length else none) := by
    unfold position
    rw [firsts_snoc_new new,List.findIdx?_append]
    by_cases same : key j = k
    · simp [same]
    · simp [same]
  rw [appended]
  by_cases same : k = key j
  · subst same
    have absent : position key rows (key j) = none := by
      cases is : position key rows (key j) with
      | none => rfl
      | some p => exact absurd (position_some is) new
    simp [absent]
  · simp [same,Ne.symm same]

-- Changing the group at a key's place changes the group of that key.
theorem modify_at_position {rows : List ι} {k : κ} {p : Nat} (is : position key rows k = some p) {β : Type}
    (view : ι → β) (change : β → β) :
    ((firsts key rows).map view).modify p change =
      (firsts key rows).map fun i => if key i = k then change (view i) else view i := by
  have here := position_get is
  have nodup : ((firsts key rows).map key).Nodup := firsts_nodup rows
  refine List.ext_getElem? fun n => ?_
  rw [List.getElem?_modify,List.getElem?_map,List.getElem?_map]
  cases at' : (firsts key rows)[n]? with
  | none => rfl
  | some i =>
    have keyed : ((firsts key rows).map key)[n]? = some (key i) := by rw [List.getElem?_map,at']; rfl
    by_cases equal : p = n
    · subst equal
      rw [here] at keyed
      have same : k = key i := Option.some.inj keyed
      simp [same]
    · have differs : key i ≠ k := by
        intro same
        rw [same,←here] at keyed
        have inside := (List.getElem?_eq_some_iff.mp here).1
        exact equal ((List.getElem?_inj inside nodup).mp keyed.symm)
      simp [equal,differs]

-- The group that holds the rows of a key.
def groupOf (key : ι → κ) (rows : List ι) (k : κ) : Option (RowGroup ι) :=
  (groups key rows).find? fun g => key g.first = k

theorem groupOf_none {rows : List ι} {k : κ} : groupOf key rows k = none ↔ ¬Known key rows k := by
  rw [groupOf,List.find?_eq_none,←known_firsts,groups]
  simp [Known]

theorem groupOf_snoc_known {rows : List ι} {j : ι} (known : Known key rows (key j)) (k : κ) :
    groupOf key (rows ++ [j]) k =
      (groupOf key rows k).map fun g => if key j = k then g.add j else g := by
  have kept : ((fun g : RowGroup ι => decide (key g.first = k)) ∘ fun g : RowGroup ι =>
      if key g.first = key j then g.add j else g) = fun g => decide (key g.first = k) := by
    funext g
    by_cases same : key g.first = key j
    · simp [same,RowGroup.add]
    · simp [same]
  rw [groupOf,groups_snoc_known known,List.find?_map,kept,groupOf]
  cases found : (groups key rows).find? fun g => key g.first = k with
  | none => rfl
  | some g =>
    have keyed : key g.first = k := by simpa using List.find?_some found
    simp [keyed,eq_comm]

theorem groupOf_snoc_new {rows : List ι} {j : ι} (new : ¬Known key rows (key j)) (k : κ) :
    groupOf key (rows ++ [j]) k = if key j = k then some ⟨j,[j]⟩ else groupOf key rows k := by
  rw [groupOf,groups_snoc_new new,List.find?_append]
  by_cases same : key j = k
  · have absent := groupOf_none.mpr (same ▸ new)
    rw [groupOf] at absent
    simp [absent,same]
  · simp [same,groupOf]

theorem groupOf_first {rows : List ι} {i : ι} (first : i ∈ firsts key rows) :
    groupOf key rows (key i) = some ⟨i,rows.filter fun j => key j = key i⟩ := by
  have member : ⟨i,rows.filter fun j => key j = key i⟩ ∈ groups key rows := List.mem_map_of_mem first
  cases found : groupOf key rows (key i) with
  | none =>
    have known : Known key rows (key i) := known_firsts.mp (List.mem_map_of_mem first)
    exact absurd known (groupOf_none.mp found)
  | some g =>
    have keyed : key g.first = key i := by simpa using List.find?_some found
    obtain ⟨i',first',rfl⟩ := List.mem_map.mp (List.mem_of_find?_eq_some found)
    have equal : i' = i := List.inj_on_of_nodup_map (firsts_nodup rows) first' first keyed
    rw [equal]

theorem group_members {rows : List ι} {group : RowGroup ι} (member : group ∈ groups key rows) :
    group.members = rows.filter fun row => key row = key group.first := by
  obtain ⟨first,_,rfl⟩ := List.mem_map.mp member
  rfl

theorem group_first {rows : List ι} {group : RowGroup ι} (member : group ∈ groups key rows) : group.first ∈ rows := by
  obtain ⟨first,among,rfl⟩ := List.mem_map.mp member
  exact mem_of_mem_firsts among

theorem firsts_head {rows : List ι} {i : ι} (first : i ∈ firsts key rows) :
    (rows.filter fun j => key j = key i).head? = some i := by
  induction rows with
  | nil => cases first
  | cons j rows ih =>
    rcases List.mem_cons.mp first with rfl | later
    · rw [List.filter_cons_of_pos (by simp)]
      rfl
    · obtain ⟨among,differs⟩ := List.mem_filter.mp later
      have other : ¬key j = key i := fun same => of_decide_eq_true differs same.symm
      rw [List.filter_cons_of_neg (by simpa using other)]
      exact ih among

theorem group_head {rows : List ι} {group : RowGroup ι} (member : group ∈ groups key rows) :
    group.members.head? = some group.first := by
  obtain ⟨first,among,rfl⟩ := List.mem_map.mp member
  exact firsts_head among

variable (key) in
-- The group that a row is in.
theorem group_of {rows : List ι} {row : ι} (member : row ∈ rows) :
    ∃ group ∈ groups key rows,key group.first = key row ∧ group.members = rows.filter fun other => key other = key row := by
  have known : Known key (firsts key rows) (key row) := known_firsts.mpr (List.mem_map_of_mem member)
  obtain ⟨first,among,same⟩ := List.mem_map.mp known
  refine ⟨_,List.mem_map_of_mem among,same,?_⟩
  rw [same]

end Grouping
