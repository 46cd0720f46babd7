import Scythe.Disambiguation

-- The names that the loop of the source gives, without a bound on its tries.
namespace Scythe

-- The loop of the source: it tries one suffix after another until a name is free.
inductive Searched (base : String) (taken : List String) : Nat → Nat → Prop where
  | free : suffixed base (suffix + 1) ∉ taken → Searched base taken suffix (suffix + 1)
  | next : suffixed base (suffix + 1) ∈ taken → Searched base taken (suffix + 1) found →
      Searched base taken suffix found

-- A run over the names, with what is taken and the last suffix of each base.
inductive Renames (all : List String) : List String → List (String × Nat) → List String → List String → Prop where
  | done : Renames all taken suffixes [] []
  | once : all.count name < 2 → Renames all taken suffixes names renamed →
      Renames all taken suffixes (name :: names) (name :: renamed)
  | again : ¬all.count name < 2 → Searched name taken ((suffixes.lookup name).getD 0) found →
      Renames all (suffixed name found :: taken) ((name,found) :: suffixes) names renamed →
      Renames all taken suffixes (name :: names) (suffixed name found :: renamed)

theorem searched_unique {base : String} {taken : List String} {suffix found other : Nat}
    (search : Searched base taken suffix found) (again : Searched base taken suffix other) : found = other := by
  induction search with
  | free vacant =>
    cases again with
    | free _ => rfl
    | next inside _ => exact absurd inside vacant
  | next inside _ ih =>
    cases again with
    | free vacant => exact absurd inside vacant
    | next _ rest => exact ih rest

theorem renames_unique {all taken names first second : List String} {suffixes : List (String × Nat)}
    (run : Renames all taken suffixes names first) (again : Renames all taken suffixes names second) :
    first = second := by
  induction run generalizing second with
  | done =>
    cases again
    rfl
  | once single _ ih =>
    cases again with
    | once _ rest => exact congrArg _ (ih rest)
    | again many _ _ => exact absurd single many
  | again many search _ ih =>
    cases again with
    | once single _ => exact absurd single many
    | again _ other rest =>
      cases searched_unique search other
      exact congrArg _ (ih rest)

-- The bounded search ends where the loop does, as soon as its tries lead to a free name.
theorem freshSuffix_searched {base : String} {taken : List String} {tries suffix : Nat}
    (free : suffixed base (freshSuffix base taken tries suffix) ∉ taken) (some : 0 < tries) :
    Searched base taken suffix (freshSuffix base taken tries suffix) := by
  induction tries generalizing suffix with
  | zero => cases some
  | succ tries ih =>
    rw [freshSuffix] at free ⊢
    split at free
    · rename_i inside
      rw [if_pos inside]
      rcases Nat.eq_zero_or_pos tries with rfl | more
      · exact absurd inside free
      · exact .next inside (ih free more)
    · rename_i vacant
      rw [if_neg vacant]
      exact .free vacant

theorem disambiguateFrom_renames (all taken : List String) (suffixes : List (String × Nat)) (names : List String) :
    Renames all taken suffixes names (disambiguateFrom all taken suffixes names) := by
  induction names generalizing taken suffixes with
  | nil => exact .done
  | cons name names ih =>
    rw [disambiguateFrom]
    split
    next single => exact .once single (ih taken suffixes)
    next many =>
      exact .again many (freshSuffix_searched (freshSuffix_free name taken _) (Nat.succ_pos _)) (ih _ _)

-- What comes out is a name that stays, or one that was not taken.
theorem renamed_from {all taken : List String} {suffixes : List (String × Nat)} {names : List String} {result : String}
    (member : result ∈ disambiguateFrom all taken suffixes names) : result ∈ names ∨ result ∉ taken := by
  induction names generalizing taken suffixes with
  | nil => cases member
  | cons name names ih =>
    rw [disambiguateFrom] at member
    split at member
    · rcases List.mem_cons.mp member with rfl | later
      · exact .inl List.mem_cons_self
      · exact (ih later).imp_left (List.mem_cons_of_mem _)
    · rcases List.mem_cons.mp member with rfl | later
      · exact .inr (freshSuffix_free name taken _)
      · exact (ih later).imp (List.mem_cons_of_mem _) fun free inside => free (List.mem_cons_of_mem _ inside)

theorem disambiguateFrom_nodup {all taken : List String} (within : all ⊆ taken) {suffixes : List (String × Nat)}
    {names : List String} (left : List.Sublist names all) : (disambiguateFrom all taken suffixes names).Nodup := by
  induction names generalizing taken suffixes with
  | nil => exact List.nodup_nil
  | cons name names ih =>
    have rest : List.Sublist names all := (List.sublist_cons_self name names).trans left
    have own : name ∈ all := left.subset List.mem_cons_self
    rw [disambiguateFrom]
    split
    next single =>
      refine List.nodup_cons.mpr ⟨fun member => ?_,ih within rest⟩
      rcases renamed_from member with later | free
      · have twice := left.count_le name
        rw [List.count_cons_self] at twice
        have here := List.count_pos_iff.mpr later
        omega
      · exact free (within own)
    next many =>
      refine List.nodup_cons.mpr ⟨fun member => ?_,ih (fun old inside => List.mem_cons_of_mem _ (within inside)) rest⟩
      rcases renamed_from member with later | free
      · exact freshSuffix_free name taken _ (within (rest.subset later))
      · exact free List.mem_cons_self

-- The renaming of a list of names: it comes to an end, and what it gives is as long,
-- without a name twice, and keeps every name that stood alone.
structure Disambiguates (names renamed : List String) : Prop where
  run : Renames names names [] names renamed
  alone : ∀ other,Renames names names [] names other → other = renamed
  length : renamed.length = names.length
  distinct : renamed.Nodup
  kept : ∀ (i : Nat) (name : String),names[i]? = some name → names.count name = 1 → renamed[i]? = some name

theorem duplicate_names_disambiguated (names : List String) :
    Disambiguates names (disambiguateDuplicateNames names) := by
  have run := disambiguateFrom_renames names names [] names
  have spec := disambiguate_spec names
  refine ⟨run,fun other again => renames_unique again run,spec.length_eq.symm,?_,fun i name is single => ?_⟩
  · exact disambiguateFrom_nodup (List.Subset.refl names) (List.Sublist.refl names)
  · obtain ⟨inside,value⟩ := List.getElem?_eq_some_iff.mp is
    have there : i < (disambiguateDuplicateNames names).length := spec.length_eq ▸ inside
    have here := spec.get inside there
    rw [List.get_eq_getElem,List.get_eq_getElem] at here
    rw [value] at here
    rcases here with ⟨_,same⟩ | ⟨many,_⟩
    · exact List.getElem?_eq_some_iff.mpr ⟨there,same⟩
    · omega

-- A suffix that the list already has is passed over.
example : disambiguateDuplicateNames ["id","id","id_1"] = ["id_2","id_3","id_1"] := by decide +kernel

end Scythe
